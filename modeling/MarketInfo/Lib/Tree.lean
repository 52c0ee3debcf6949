import MarketInfo.Lib.Json

/-! # JSON trees

Values of any depth as an encoder writes them that takes the keys of a map in their order.
Two trees are written alike exactly if they mean the same, where a map means a function.
-/

/-! ## Entries by key -/

namespace Entries

variable {κ ν μ : Type*}

/-- The keys of a map, whose entries are listed in whatever order it is walked. -/
def Distinct (es : List (κ × ν)) : Prop := (es.map Prod.fst).Nodup

instance [DecidableEq κ] (es : List (κ × ν)) : Decidable (Distinct es) :=
  inferInstanceAs (Decidable (es.map Prod.fst).Nodup)

theorem key_inj {es : List (κ × ν)} (h : Distinct es) {a b : κ × ν} (ha : a ∈ es) (hb : b ∈ es)
    (hkey : a.1 = b.1) : a = b := List.inj_on_of_nodup_map h ha hb hkey

theorem Distinct.map {es : List (κ × ν)} (h : Distinct es) (f : ν → μ) :
    Distinct (es.map fun e => (e.1, f e.2)) := by
  unfold Distinct
  rw [List.map_map]
  exact h

variable [LinearOrder κ]

def sortByKey (es : List (κ × ν)) : List (κ × ν) := es.mergeSort fun a b => decide (a.1 ≤ b.1)

def find (es : List (κ × ν)) (k : κ) : Option ν := (es.find? fun e => decide (e.1 = k)).map Prod.snd

theorem mem_sortByKey {es : List (κ × ν)} {e : κ × ν} : e ∈ sortByKey es ↔ e ∈ es := List.mem_mergeSort

theorem sortByKey_sorted (es : List (κ × ν)) : (sortByKey es).Pairwise fun a b => a.1 ≤ b.1 := by
  have hpairs : (sortByKey es).Pairwise fun a b => decide (a.1 ≤ b.1) = true :=
    List.pairwise_mergeSort (fun a b c => by simpa using le_trans)
      (fun a b => by simpa using le_total a.1 b.1) es
  exact hpairs.imp fun hab => by simpa using hab

theorem find_eq_some {es : List (κ × ν)} (h : Distinct es) {k : κ} {v : ν} :
    find es k = some v ↔ (k, v) ∈ es := by
  constructor
  · intro hfind
    obtain ⟨e, he, rfl⟩ := Option.map_eq_some_iff.1 hfind
    have hkey : e.1 = k := by simpa using List.find?_some he
    rw [← hkey]
    exact List.mem_of_find?_eq_some he
  · intro hmem
    have hsome : (es.find? fun e => decide (e.1 = k)).isSome = true :=
      List.find?_isSome.2 ⟨(k, v), hmem, by simp⟩
    obtain ⟨e, he⟩ := Option.isSome_iff_exists.1 hsome
    have hkey : e.1 = k := by simpa using List.find?_some he
    obtain rfl : e = (k, v) := key_inj h (List.mem_of_find?_eq_some he) hmem hkey
    rw [find, he]
    rfl

theorem find_map (f : ν → μ) (es : List (κ × ν)) (k : κ) :
    find (es.map fun e => (e.1, f e.2)) k = (find es k).map f := by
  unfold find
  rw [List.find?_map, Option.map_map, Option.map_map]
  rfl

/-- Sorted entries tell what is found under every key, and nothing else. -/
theorem sortByKey_eq_iff {xs ys : List (κ × ν)} (hx : Distinct xs) (hy : Distinct ys) :
    sortByKey xs = sortByKey ys ↔ ∀ k, find xs k = find ys k := by
  constructor
  · intro h k
    have hmem : ∀ e, e ∈ xs ↔ e ∈ ys := fun e => by
      rw [← mem_sortByKey, h, mem_sortByKey]
    refine Option.ext fun v => ?_
    rw [find_eq_some hx, find_eq_some hy, hmem]
  · intro h
    have hmem : ∀ e, e ∈ xs ↔ e ∈ ys := fun e => by
      rw [← Prod.mk.eta (p := e), ← find_eq_some hx, ← find_eq_some hy, h]
    have hperm : (sortByKey xs).Perm (sortByKey ys) :=
      (List.mergeSort_perm xs _).trans (((List.perm_ext_iff_of_nodup (List.Nodup.of_map _ hx)
        (List.Nodup.of_map _ hy)).2 hmem).trans (List.mergeSort_perm ys _).symm)
    refine hperm.eq_of_pairwise ?_ (sortByKey_sorted xs) (sortByKey_sorted ys)
    intro a b ha hb hab hba
    exact key_inj hx (mem_sortByKey.1 ha) ((hmem b).2 (mem_sortByKey.1 hb)) (le_antisymm hab hba)

/-- The same of values that are taken through functions, when these agree on what they tell apart. -/
theorem sortByKey_map_eq_iff {ν' μ' : Type*} {xs : List (κ × ν)} {ys : List (κ × ν')} {f : ν → μ}
    {g : ν' → μ} {f' : ν → μ'} {g' : ν' → μ'} (hx : Distinct xs) (hy : Distinct ys)
    (h : ∀ k v w, (k, v) ∈ xs → (k, w) ∈ ys → (f v = g w ↔ f' v = g' w)) :
    sortByKey (xs.map fun e => (e.1, f e.2)) = sortByKey (ys.map fun e => (e.1, g e.2)) ↔
      ∀ k, (find xs k).map f' = (find ys k).map g' := by
  rw [sortByKey_eq_iff (hx.map f) (hy.map g)]
  refine forall_congr' fun k => ?_
  rw [find_map, find_map]
  rcases hv : find xs k with _ | v
  · rcases find ys k with _ | w
    · simp
    · simp
  · rcases hw : find ys k with _ | w
    · simp
    · simp only [Option.map_some, Option.some.injEq]
      exact h k v w ((find_eq_some hx).1 hv) ((find_eq_some hy).1 hw)

end Entries

namespace Json

/-! ## Trees -/

inductive Tree
  | int (n : Int)
  | text (s : Text)
  | list (ts : List Tree)
  | map (es : List (Text × Tree))

@[elab_as_elim]
theorem Tree.induction {P : Tree → Prop} (int : ∀ n, P (.int n)) (text : ∀ s, P (.text s))
    (list : ∀ ts, (∀ t ∈ ts, P t) → P (.list ts)) (map : ∀ es, (∀ e ∈ es, P e.2) → P (.map es)) :
    ∀ t, P t
  | .int n => int n
  | .text s => text s
  | .list ts => list ts fun t _ => Tree.induction int text list map t
  | .map es => map es fun e _ => Tree.induction int text list map e.2
termination_by t => sizeOf t
decreasing_by
  · simp only [Tree.list.sizeOf_spec]
    have := List.sizeOf_lt_of_mem ‹_›
    omega
  · simp only [Tree.map.sizeOf_spec]
    have := List.sizeOf_lt_of_mem ‹_›
    rcases e with ⟨k, t⟩
    simp only [Prod.mk.sizeOf_spec] at this
    simp only
    omega

mutual

/-- Every map with its keys in order. -/
def Tree.sort : Tree → Tree
  | .int n => .int n
  | .text s => .text s
  | .list ts => .list (sortAll ts)
  | .map es => .map (Entries.sortByKey (sortValues es))

def sortAll : List Tree → List Tree
  | [] => []
  | t :: ts => t.sort :: sortAll ts

def sortValues : List (Text × Tree) → List (Text × Tree)
  | [] => []
  | (k, t) :: es => (k, t.sort) :: sortValues es

end

mutual

def Tree.write : Tree → Text
  | .int n => intText n
  | .text s => quote s
  | .list ts => '[' :: (items id (writeAll ts) ++ [']'])
  | .map es => '{' :: (items id (writeFields es) ++ ['}'])

def writeAll : List Tree → List Text
  | [] => []
  | t :: ts => t.write :: writeAll ts

def writeFields : List (Text × Tree) → List Text
  | [] => []
  | (k, t) :: es => (quote k ++ ':' :: t.write) :: writeFields es

end

theorem sortAll_eq (ts : List Tree) : sortAll ts = ts.map Tree.sort := by
  induction ts with
  | nil => rfl
  | cons t ts ih => rw [sortAll, ih, List.map_cons]

theorem sortValues_eq (es : List (Text × Tree)) : sortValues es = es.map fun e => (e.1, e.2.sort) := by
  induction es with
  | nil => rfl
  | cons e es ih => rw [sortValues, ih, List.map_cons]

theorem writeAll_eq (ts : List Tree) : writeAll ts = ts.map Tree.write := by
  induction ts with
  | nil => rfl
  | cons t ts ih => rw [writeAll, ih, List.map_cons]

def writeMember (e : Text × Tree) : Text := quote e.1 ++ ':' :: e.2.write

theorem writeFields_eq (es : List (Text × Tree)) : writeFields es = es.map writeMember := by
  induction es with
  | nil => rfl
  | cons e es ih => rw [writeFields, ih, List.map_cons, writeMember]

/-- What the encoder writes. -/
def Tree.encode (t : Tree) : Text := t.sort.write

/-! ## What is written tells the tree -/

theorem items_map {α β : Type*} (f : α → β) (write : β → Text) (as : List α) :
    items write (as.map f) = items (fun a => write (f a)) as := by
  cases as with
  | nil => rfl
  | cons a as => rw [List.map_cons, items, items, List.flatMap_map]

theorem write_list (ts : List Tree) : (Tree.list ts).write = '[' :: (items Tree.write ts ++ [']']) := by
  rw [Tree.write, writeAll_eq, items_map]
  rfl

theorem write_map (es : List (Text × Tree)) :
    (Tree.map es).write = '\x7b' :: (items writeMember es ++ ['\x7d']) := by
  rw [Tree.write, writeFields_eq, items_map]
  rfl

def Tree.kind : Tree → Nat
  | .int _ => 0
  | .text _ => 1
  | .list _ => 2
  | .map _ => 3

def kindOf (c : Char) : Nat :=
  if c = quoteMark then 1 else if c = '[' then 2 else if c = '\x7b' then 3 else 0

/-- The first character tells the kind. -/
theorem head_write (t : Tree) : ∃ c rest, t.write = c :: rest ∧ kindOf c = t.kind ∧ c ≠ ']' := by
  cases t with
  | int n =>
      obtain ⟨c, rest, htext, hc⟩ := head_intText n
      have hne : ∀ d : Char, d.isDigit = false ∧ d ≠ '-' → c ≠ d := by
        rintro d ⟨hd, hminus⟩ rfl
        rcases hc with hc | hc
        · rw [hc] at hd
          cases hd
        · exact hminus hc
      refine ⟨c, rest, htext, ?_, hne ']' (by decide)⟩
      rw [kindOf, if_neg (hne quoteMark (by decide)), if_neg (hne '[' (by decide)),
        if_neg (hne '\x7b' (by decide))]
      rfl
  | text s => exact ⟨_, _, rfl, rfl, by decide⟩
  | list ts => exact ⟨_, _, rfl, rfl, by decide⟩
  | map es => exact ⟨_, _, rfl, rfl, by decide⟩

theorem kind_eq {t u : Tree} {r r' : Text} (h : t.write ++ r = u.write ++ r') : t.kind = u.kind := by
  obtain ⟨c, rest, ht, hc, -⟩ := head_write t
  obtain ⟨d, rest', hu, hd, -⟩ := head_write u
  rw [ht, hu, List.cons_append, List.cons_append] at h
  rw [← hc, ← hd, (List.cons.inj h).1]

theorem stops_after (close : Char) (h : close.isDigit = false) (r : Text) :
    Stops (',' :: r) ∧ Stops (close :: r) := by
  constructor
  · rintro c ⟨⟩
    rfl
  · rintro c ⟨⟩
    exact h

theorem write_selfDelimiting (t : Tree) : ∀ u r r', Stops r → Stops r' →
    t.write ++ r = u.write ++ r' → t = u ∧ r = r' := by
  induction t using Tree.induction with
  | int n =>
      intro u r r' hr hr' h
      have hkind := kind_eq h
      cases u with
      | int m =>
          obtain ⟨rfl, hrest⟩ := intText_inj hr hr' h
          exact ⟨rfl, hrest⟩
      | text _ => cases hkind
      | list _ => cases hkind
      | map _ => cases hkind
  | text s =>
      intro u r r' _ _ h
      have hkind := kind_eq h
      cases u with
      | text _ =>
          obtain ⟨rfl, hrest⟩ := quote_inj h
          exact ⟨rfl, hrest⟩
      | int _ => cases hkind
      | list _ => cases hkind
      | map _ => cases hkind
  | list ts ih =>
      intro u r r' _ _ h
      have hkind := kind_eq h
      cases u with
      | list us =>
          rw [write_list, write_list, List.cons_append, List.cons_append, List.append_assoc,
            List.append_assoc] at h
          have hopen : ∀ (a : Tree) (s s' : Text), a.write ++ s ≠ ']' :: s' := by
            intro a s s' heq
            obtain ⟨c, rest, ha, -, hc⟩ := head_write a
            rw [ha] at heq
            exact hc (List.cons.inj heq).1
          obtain ⟨rfl, hrest⟩ := items_inj ih (by decide) (stops_after ']' rfl) hopen (List.cons.inj h).2
          exact ⟨rfl, hrest⟩
      | int _ => cases hkind
      | text _ => cases hkind
      | map _ => cases hkind
  | map es ih =>
      intro u r r' _ _ h
      have hkind := kind_eq h
      cases u with
      | map us =>
          rw [write_map, write_map, List.cons_append, List.cons_append, List.append_assoc,
            List.append_assoc] at h
          have hmember : ∀ a ∈ es, ∀ b s s', Stops s → Stops s' →
              writeMember a ++ s = writeMember b ++ s' → a = b ∧ s = s' := by
            intro a ha b s s' hs hs' heq
            unfold writeMember at heq
            rw [List.append_assoc, List.append_assoc] at heq
            obtain ⟨hkey, hrest⟩ := quote_inj heq
            obtain ⟨hvalue, hend⟩ := ih a ha b.2 s s' hs hs' (List.cons.inj hrest).2
            exact ⟨Prod.ext hkey hvalue, hend⟩
          have hopen : ∀ (a : Text × Tree) (s s' : Text), writeMember a ++ s ≠ '\x7d' :: s' := by
            intro a s s' heq
            have hhead : quoteMark = '\x7d' := (List.cons.inj heq).1
            revert hhead
            decide
          obtain ⟨rfl, hrest⟩ := items_inj hmember (by decide) (stops_after '\x7d' rfl) hopen
            (List.cons.inj h).2
          exact ⟨rfl, hrest⟩
      | int _ => cases hkind
      | text _ => cases hkind
      | list _ => cases hkind

theorem write_injective : Function.Injective Tree.write := by
  intro t u h
  refine (write_selfDelimiting t u [] [] ?_ ?_ (by rw [h])).1
  · intro c hc
    cases hc
  · intro c hc
    cases hc

/-! ## Meaning -/

/-- What a value says: a map is a function of its keys, a number is its value. -/
inductive Meaning
  | int (n : Int)
  | text (s : Text)
  | number (q : ℚ)
  | list (ms : List Meaning)
  | map (f : Text → Option Meaning)

mutual

def Tree.meaning : Tree → Meaning
  | .int n => .int n
  | .text s => .text s
  | .list ts => .list (meanings ts)
  | .map es => .map (meaningAt es)

def meanings : List Tree → List Meaning
  | [] => []
  | t :: ts => t.meaning :: meanings ts

def meaningAt : List (Text × Tree) → Text → Option Meaning
  | [], _ => none
  | (k, t) :: es, key => if k = key then some t.meaning else meaningAt es key

end

theorem meanings_eq (ts : List Tree) : meanings ts = ts.map Tree.meaning := by
  induction ts with
  | nil => rfl
  | cons t ts ih => rw [meanings, ih, List.map_cons]

theorem meaningAt_eq (es : List (Text × Tree)) (k : Text) :
    meaningAt es k = (Entries.find es k).map Tree.meaning := by
  induction es with
  | nil => rfl
  | cons e es ih =>
      rw [meaningAt, ih, Entries.find, Entries.find, List.find?_cons]
      by_cases hkey : e.1 = k
      · simp [hkey]
      · simp [hkey]

/-- No map has a key twice. -/
inductive Tree.Distinct : Tree → Prop
  | int (n : Int) : Tree.Distinct (.int n)
  | text (s : Text) : Tree.Distinct (.text s)
  | list {ts : List Tree} (members : ∀ t ∈ ts, Tree.Distinct t) : Tree.Distinct (.list ts)
  | map {es : List (Text × Tree)} (keys : Entries.Distinct es) (values : ∀ e ∈ es, Tree.Distinct e.2) :
      Tree.Distinct (.map es)

theorem map_eq_map_iff {α β μ μ' : Type*} {xs : List α} {ys : List β} {f : α → μ} {g : β → μ} {f' : α → μ'}
    {g' : β → μ'} (h : ∀ x ∈ xs, ∀ y ∈ ys, (f x = g y ↔ f' x = g' y)) :
    xs.map f = ys.map g ↔ xs.map f' = ys.map g' := by
  induction xs generalizing ys with
  | nil => simp only [List.map_nil, eq_comm, List.map_eq_nil_iff]
  | cons x xs ih =>
      cases ys with
      | nil => simp
      | cons y ys =>
          rw [List.map_cons, List.map_cons, List.map_cons, List.map_cons, List.cons_eq_cons,
            List.cons_eq_cons, h x List.mem_cons_self y List.mem_cons_self,
            ih fun x' hx y' hy => h x' (List.mem_cons_of_mem x hx) y' (List.mem_cons_of_mem y hy)]

theorem sort_eq_iff (t : Tree) : ∀ u : Tree, t.Distinct → u.Distinct →
    (t.sort = u.sort ↔ t.meaning = u.meaning) := by
  induction t using Tree.induction with
  | int n =>
      intro u _ _
      cases u <;> simp [Tree.sort, Tree.meaning]
  | text s =>
      intro u _ _
      cases u <;> simp [Tree.sort, Tree.meaning]
  | list ts ih =>
      intro u ht hu
      cases ht with
      | list ht =>
      cases hu with
      | list hu =>
          rw [Tree.sort, Tree.sort, Tree.meaning, Tree.meaning, Tree.list.injEq, Meaning.list.injEq,
            sortAll_eq, sortAll_eq, meanings_eq, meanings_eq]
          exact map_eq_map_iff fun t hmem u hmem' => ih t hmem u (ht t hmem) (hu u hmem')
      | int _ => simp [Tree.sort, Tree.meaning]
      | text _ => simp [Tree.sort, Tree.meaning]
      | map _ _ => simp [Tree.sort, Tree.meaning]
  | map es ih =>
      intro u ht hu
      cases ht with
      | map ht hvalues =>
      cases hu with
      | map hu hvalues' =>
          rw [Tree.sort, Tree.sort, Tree.meaning, Tree.meaning, Tree.map.injEq, Meaning.map.injEq,
            sortValues_eq, sortValues_eq, funext_iff]
          simp only [meaningAt_eq]
          exact Entries.sortByKey_map_eq_iff ht hu fun k v w hv hw =>
            ih (k, v) hv w (hvalues (k, v) hv) (hvalues' (k, w) hw)
      | int _ => simp [Tree.sort, Tree.meaning]
      | text _ => simp [Tree.sort, Tree.meaning]
      | list _ => simp [Tree.sort, Tree.meaning]

/-- Trees are encoded alike exactly if they mean the same. -/
theorem encode_eq_iff {t u : Tree} (ht : t.Distinct) (hu : u.Distinct) :
    t.encode = u.encode ↔ t.meaning = u.meaning := by
  rw [← sort_eq_iff t u ht hu]
  exact write_injective.eq_iff

end Json
