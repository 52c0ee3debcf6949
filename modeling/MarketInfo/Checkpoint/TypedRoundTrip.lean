import MarketInfo.Checkpoint.Typed

/-! # States come back

What `UnmarshalTyped` gives of a state that `MarshalTyped` took is the state, with every nil pointer
and every pointer to a zero value where it was.
-/

namespace MarketInfo.Checkpoint

variable {τ α : Type} {S : Types τ α}

-- the equations of the recursive definitions are derived here, before the proofs that unfold them
attribute [local simp] isZero allZero gobSafe gobSafeElems gobSafeFields gobSafeEntries captureAll
  capturePresence restorePresence restoreAll fieldMembers elemMembers mapMembers refill

/-! ## What is transmitted -/

/-- Fields that are exported are related, others arrive as zero. -/
inductive Fields (S : Types τ α) (R : τ → Val α → Val α → Prop) :
    List (Bool × τ) → List (Val α) → List (Val α) → Prop where
  | nil : Fields S R [] [] []
  | exported {t : τ} {v w : Val α} {fields : List (Bool × τ)} {vs ws : List (Val α)} (h : R t v w)
      (hrest : Fields S R fields vs ws) : Fields S R ((true, t) :: fields) (v :: vs) (w :: ws)
  | hidden {t : τ} {v : Val α} {fields : List (Bool × τ)} {vs ws : List (Val α)}
      (hrest : Fields S R fields vs ws) : Fields S R ((false, t) :: fields) (v :: vs) (S.zero t :: ws)

/-- The elements of a slice as fields. -/
def elemFields {β : Type} (elem : τ) (vs : List β) : List (Bool × τ) := vs.map fun _ => (true, elem)

/-- `w` is what arrives of a value `v` that is sent at a type: a pointer whose target would arrive as
zero may be left out, and a slice or map without members may be nil or not. -/
inductive Wire (S : Types τ α) : τ → Val α → Val α → Prop where
  | leaf {t : τ} {a : α} (hs : S.shape t = .basic ∨ S.shape t = .atomic) : Wire S t (.leaf a) (.leaf a)
  | nil {t elem : τ} (hs : S.shape t = .pointer elem ∨ S.shape t = .slice elem ∨ S.shape t = .map elem) :
      Wire S t .nil .nil
  | pointer {t elem : τ} {v w : Val α} (hs : S.shape t = .pointer elem) (h : Wire S elem v w)
      (hzero : v = S.zero elem → w = S.zero elem) : Wire S t (.pointer v) (.pointer w)
  | omitted {t elem : τ} {v : Val α} (hs : S.shape t = .pointer elem) (h : Wire S elem v (S.zero elem)) :
      Wire S t (.pointer v) .nil
  | struct {t : τ} {fields : List (Bool × τ)} {vs ws : List (Val α)} (hs : S.shape t = .struct fields)
      (h : Fields S (Wire S) fields vs ws) : Wire S t (.struct vs) (.struct ws)
  | array {t elem : τ} {length : Nat} {vs ws : List (Val α)} (hs : S.shape t = .array length elem)
      (h : Fields S (Wire S) (elemFields elem vs) vs ws) : Wire S t (.array vs) (.array ws)
  | slice {t elem : τ} {vs ws : List (Val α)} (hs : S.shape t = .slice elem)
      (h : Fields S (Wire S) (elemFields elem vs) vs ws) :
      Wire S t (.slice vs) (.slice ws)
  | map {t elem : τ} {es fs : List (Key × Val α)} (hs : S.shape t = .map elem)
      (hkeys : es.map Prod.fst = fs.map Prod.fst)
      (hnodup : (es.map Prod.fst).Nodup)
      (h : Fields S (Wire S) (elemFields elem es) (es.map Prod.snd) (fs.map Prod.snd)) :
      Wire S t (.map es) (.map fs)
  | interface {t : τ} {isNil : Bool} (hs : S.shape t = .interface) :
      Wire S t (.interface isNil) (.interface isNil)
  | nilSlice {t elem : τ} (hs : S.shape t = .slice elem) : Wire S t .nil (.slice [])
  | emptySlice {t elem : τ} (hs : S.shape t = .slice elem) : Wire S t (.slice []) .nil
  | nilMap {t elem : τ} (hs : S.shape t = .map elem) : Wire S t .nil (.map [])
  | emptyMap {t elem : τ} (hs : S.shape t = .map elem) : Wire S t (.map []) .nil

/-- Equality up to nil and empty slices and maps, with fields that are not exported zero. -/
inductive Alike (S : Types τ α) : τ → Val α → Val α → Prop where
  | leaf (t : τ) (a : α) : Alike S t (.leaf a) (.leaf a)
  | nil (t : τ) : Alike S t .nil .nil
  | pointer {t elem : τ} {v w : Val α} (hs : S.shape t = .pointer elem) (h : Alike S elem v w) :
      Alike S t (.pointer v) (.pointer w)
  | struct {t : τ} {fields : List (Bool × τ)} {vs ws : List (Val α)} (hs : S.shape t = .struct fields)
      (h : Fields S (Alike S) fields vs ws) : Alike S t (.struct vs) (.struct ws)
  | array {t elem : τ} {length : Nat} {vs ws : List (Val α)} (hs : S.shape t = .array length elem)
      (h : Fields S (Alike S) (elemFields elem vs) vs ws) : Alike S t (.array vs) (.array ws)
  | slice {t elem : τ} {vs ws : List (Val α)} (hs : S.shape t = .slice elem)
      (h : Fields S (Alike S) (elemFields elem vs) vs ws) :
      Alike S t (.slice vs) (.slice ws)
  | map {t elem : τ} {es fs : List (Key × Val α)} (hs : S.shape t = .map elem)
      (hkeys : es.map Prod.fst = fs.map Prod.fst)
      (h : Fields S (Alike S) (elemFields elem es) (es.map Prod.snd) (fs.map Prod.snd)) :
      Alike S t (.map es) (.map fs)
  | nilSlice {t elem : τ} (hs : S.shape t = .slice elem) : Alike S t .nil (.slice [])
  | emptySlice {t elem : τ} (hs : S.shape t = .slice elem) : Alike S t (.slice []) .nil
  | nilMap {t elem : τ} (hs : S.shape t = .map elem) : Alike S t .nil (.map [])
  | emptyMap {t elem : τ} (hs : S.shape t = .map elem) : Alike S t (.map []) .nil

/-! ## Zero values -/

mutual

theorem isZero_zero (v : Val α) (t : τ) (h : S.zero t = v) : isZero S v = true := by
  rw [S.zero_eq] at h
  cases v with
  | leaf a =>
      rcases hs : S.shape t <;> rw [hs] at h <;> cases h
      · exact S.isZeroLeaf_zeroLeaf t
      · exact S.isZeroLeaf_zeroLeaf t
  | nil => rfl
  | pointer v => rcases hs : S.shape t <;> rw [hs] at h <;> cases h
  | struct vs =>
      rcases hs : S.shape t with _ | _ | _ | fields | _ | _ | _ | _ <;> rw [hs] at h <;> try contradiction
      refine allZero_zero vs (fields.map Prod.snd) ?_
      rw [List.map_map]
      exact Val.struct.inj h
  | array vs =>
      rcases hs : S.shape t with _ | _ | _ | _ | ⟨length, elem⟩ | _ | _ | _ <;> rw [hs] at h <;>
        try contradiction
      refine allZero_zero vs (List.replicate length elem) ?_
      rw [List.map_replicate]
      exact Val.array.inj h
  | slice vs => rcases hs : S.shape t <;> rw [hs] at h <;> cases h
  | map es => rcases hs : S.shape t <;> rw [hs] at h <;> cases h
  | interface isNil => rcases hs : S.shape t <;> rw [hs] at h <;> cases h; rfl

theorem allZero_zero (vs : List (Val α)) (ts : List τ) (h : ts.map S.zero = vs) : allZero S vs = true := by
  cases vs with
  | nil => rfl
  | cons v vs =>
      cases ts with
      | nil => cases h
      | cons t ts =>
          obtain ⟨hv, hvs⟩ := List.cons.inj h
          unfold allZero
          rw [isZero_zero v t hv, allZero_zero vs ts hvs]
          rfl

end

/-! ## Members -/

theorem elemMembers_eq (elem : τ) (i : Nat) (vs : List (Val α)) :
    elemMembers elem i vs = fieldMembers i (elemFields elem vs) vs := by
  induction vs generalizing i with
  | nil => rfl
  | cons v vs ih =>
      unfold elemMembers
      rw [ih]
      rfl

/-- The labels of fields are their numbers. -/
theorem label_fieldMembers {i : Nat} {fields : List (Bool × τ)} {vs : List (Val α)} {m : Member τ α}
    (h : m ∈ fieldMembers i fields vs) : ∃ j : Nat, i ≤ j ∧ m.1 = .number j := by
  induction fields generalizing i vs with
  | nil =>
      unfold fieldMembers at h
      exact absurd h List.not_mem_nil
  | cons f fields ih =>
      obtain ⟨exported, t⟩ := f
      cases vs with
      | nil =>
          unfold fieldMembers at h
          cases exported <;> exact absurd h List.not_mem_nil
      | cons v vs =>
          have hrest : m ∈ fieldMembers (i + 1) fields vs → ∃ j : Nat, i ≤ j ∧ m.1 = .number j := by
            intro hm
            obtain ⟨j, hj, hlabel⟩ := ih hm
            exact ⟨j, by omega, hlabel⟩
          cases exported with
          | false => exact hrest h
          | true =>
              rcases List.mem_cons.1 h with rfl | hm
              · exact ⟨i, le_refl _, rfl⟩
              · exact hrest hm

theorem nodup_fieldMembers (i : Nat) (fields : List (Bool × τ)) (vs : List (Val α)) :
    ((fieldMembers i fields vs).map Prod.fst).Nodup := by
  induction fields generalizing i vs with
  | nil =>
      unfold fieldMembers
      exact List.nodup_nil
  | cons f fields ih =>
      obtain ⟨exported, t⟩ := f
      cases vs with
      | nil =>
          unfold fieldMembers
          cases exported <;> exact List.nodup_nil
      | cons v vs =>
          cases exported with
          | false => exact ih (i + 1) vs
          | true =>
              refine List.nodup_cons.2 ⟨?_, ih (i + 1) vs⟩
              intro hmem
              obtain ⟨m, hm, hlabel⟩ := List.mem_map.1 hmem
              obtain ⟨j, hj, hnumber⟩ := label_fieldMembers hm
              rw [hlabel] at hnumber
              have hij : (i : Int) = j := Label.number.inj hnumber
              omega

/-- Members of one key and type, the first of which arrives as the second. -/
def Twin (S : Types τ α) (element : Bool) (m m' : Member τ α) : Prop :=
  m.1 = m'.1 ∧ m.2.1 = m'.2.1 ∧ Wire S m.2.1 (gobSafe S m.2.1 element m.2.2) m'.2.2

theorem twin_fields {fields : List (Bool × τ)} {vs ws : List (Val α)}
    (h : Fields S (Wire S) fields (gobSafeFields S fields vs) ws) (i : Nat) :
    List.Forall₂ (Twin S false) (fieldMembers i fields vs) (fieldMembers i fields ws) := by
  induction fields generalizing vs ws i with
  | nil =>
      unfold fieldMembers
      exact .nil
  | cons f fields ih =>
      obtain ⟨exported, t⟩ := f
      cases vs with
      | nil =>
          unfold gobSafeFields at h
          cases h
      | cons v vs =>
          unfold gobSafeFields at h
          cases exported with
          | true =>
              cases h with
              | exported hv hrest => exact .cons ⟨rfl, rfl, hv⟩ (ih hrest (i + 1))
          | false =>
              cases h with
              | hidden hrest => exact ih hrest (i + 1)

theorem twin_elems {elem : τ} {vs ws : List (Val α)}
    (h : Fields S (Wire S) (elemFields elem (gobSafeElems S elem vs)) (gobSafeElems S elem vs) ws) (i : Nat) :
    List.Forall₂ (Twin S true) (elemMembers elem i vs) (elemMembers elem i ws) := by
  induction vs generalizing ws i with
  | nil =>
      unfold gobSafeElems at h
      cases h
      exact .nil
  | cons v vs ih =>
      unfold gobSafeElems at h
      cases h with
      | exported hv hrest => exact .cons ⟨rfl, rfl, hv⟩ (ih hrest (i + 1))

theorem twin_entries {elem : τ} {es fs : List (Key × Val α)} {ms : List (Member τ α)}
    (hms : mapMembers elem es = .ok ms)
    (hkeys : (gobSafeEntries S elem es).map Prod.fst = fs.map Prod.fst)
    (h : Fields S (Wire S) (elemFields elem (gobSafeEntries S elem es)) ((gobSafeEntries S elem es).map Prod.snd)
      (fs.map Prod.snd)) :
    ∃ ms', mapMembers elem fs = .ok ms' ∧ List.Forall₂ (Twin S true) ms ms' := by
  induction es generalizing fs ms with
  | nil =>
      unfold gobSafeEntries at hkeys
      obtain rfl := List.map_eq_nil_iff.1 hkeys.symm
      obtain rfl := Except.ok.inj hms
      exact ⟨[], rfl, .nil⟩
  | cons e es ih =>
      obtain ⟨k, v⟩ := e
      cases fs with
      | nil =>
          unfold gobSafeEntries at hkeys
          cases hkeys
      | cons f fs =>
          obtain ⟨k', w⟩ := f
          unfold gobSafeEntries at hkeys h
          obtain ⟨hk, hothers⟩ := List.cons.inj hkeys
          obtain rfl : k = k' := hk
          unfold mapMembers at hms
          obtain ⟨key, hkey, hms⟩ := Check.andThen_eq_ok.1 hms
          obtain ⟨rest, hrest, hms⟩ := Check.andThen_eq_ok.1 hms
          obtain rfl := Except.ok.inj hms
          cases h with
          | exported hv hvs =>
              obtain ⟨rest', hrest', htwins⟩ := ih hrest hothers hvs
              refine ⟨(key, elem, w) :: rest', ?_, .cons ⟨rfl, rfl, hv⟩ htwins⟩
              unfold mapMembers
              rw [hkey, hrest']
              rfl

theorem mapKey_injective {k k' : Key} {key : Label} (h : mapKey k = .ok key)
    (h' : mapKey k' = .ok key) : k = k' := by
  cases k <;> cases k' <;> cases h <;> cases h' <;> rfl

theorem label_mapMembers {elem : τ} {es : List (Key × Val α)} {ms : List (Member τ α)}
    (hms : mapMembers elem es = .ok ms) {key : Label} (hkey : key ∈ ms.map Prod.fst) :
    ∃ k ∈ es.map Prod.fst, mapKey k = .ok key := by
  induction es generalizing ms with
  | nil =>
      obtain rfl := Except.ok.inj hms
      exact absurd hkey List.not_mem_nil
  | cons e es ih =>
      obtain ⟨k, v⟩ := e
      unfold mapMembers at hms
      obtain ⟨key', hkey', hms⟩ := Check.andThen_eq_ok.1 hms
      obtain ⟨rest, hrest, hms⟩ := Check.andThen_eq_ok.1 hms
      obtain rfl := Except.ok.inj hms
      rcases List.mem_cons.1 hkey with rfl | hin
      · exact ⟨k, List.mem_cons_self, hkey'⟩
      · obtain ⟨k', hk', hlabel⟩ := ih hrest hin
        exact ⟨k', List.mem_cons_of_mem _ hk', hlabel⟩

theorem nodup_mapMembers {elem : τ} {es : List (Key × Val α)} {ms : List (Member τ α)}
    (hms : mapMembers elem es = .ok ms) (hnodup : (es.map Prod.fst).Nodup) : (ms.map Prod.fst).Nodup := by
  induction es generalizing ms with
  | nil =>
      obtain rfl := Except.ok.inj hms
      exact List.nodup_nil
  | cons e es ih =>
      obtain ⟨k, v⟩ := e
      unfold mapMembers at hms
      obtain ⟨key, hkey, hms⟩ := Check.andThen_eq_ok.1 hms
      obtain ⟨rest, hrest, hms⟩ := Check.andThen_eq_ok.1 hms
      obtain rfl := Except.ok.inj hms
      obtain ⟨hk, hnodup⟩ := List.nodup_cons.1 hnodup
      refine List.nodup_cons.2 ⟨?_, ih hrest hnodup⟩
      intro hmem
      obtain ⟨k', hk', hlabel⟩ := label_mapMembers hrest hmem
      rw [mapKey_injective hkey hlabel] at hk
      exact hk hk'

theorem keys_gobSafeEntries (elem : τ) (es : List (Key × Val α)) :
    (gobSafeEntries S elem es).map Prod.fst = es.map Prod.fst := by
  induction es with
  | nil => rfl
  | cons e es ih =>
      obtain ⟨k, v⟩ := e
      unfold gobSafeEntries
      rw [List.map_cons, List.map_cons, ih]

/-! ## The tree and its way back -/

theorem tells_eq_false {p : Presence} (h : p.tells = false) : p = .none := by
  obtain ⟨pointer, nilElement, children⟩ := p
  unfold Presence.tells at h
  rw [Bool.or_eq_false_iff, Bool.or_eq_false_iff] at h
  obtain ⟨⟨rfl, rfl⟩, hchildren⟩ := h
  rw [Bool.not_eq_false'] at hchildren
  have hempty : children = [] := List.isEmpty_iff.1 hchildren
  rw [hempty]
  rfl

/-- Every member finds its own node, and the nodes are counted. -/
theorem captureAll_lookup {capture : τ → Val α → Except Failure Presence} {isStruct : Bool}
    {ms : List (Member τ α)}
    {children : List (Label × Presence)} (h : captureAll S capture isStruct ms = .ok children)
    (hnodup : (ms.map Prod.fst).Nodup) :
    (∀ m ∈ ms, ∃ nested, capture m.2.1 m.2.2 = .ok nested ∧
      (children.lookup m.1).getD .none = noteNil S isStruct m.2.1 m.2.2 nested) ∧
      (∀ k, k ∉ ms.map Prod.fst → children.lookup k = none) ∧
        (ms.filter fun m => (children.lookup m.1).isSome).length = children.length := by
  induction ms generalizing children with
  | nil =>
      obtain rfl := Except.ok.inj h
      exact ⟨fun m hm => absurd hm List.not_mem_nil, fun _ _ => rfl, rfl⟩
  | cons m ms ih =>
      obtain ⟨key, t, v⟩ := m
      unfold captureAll at h
      obtain ⟨nested, hnested, h⟩ := Check.andThen_eq_ok.1 h
      obtain ⟨rest, hrest, h⟩ := Check.andThen_eq_ok.1 h
      obtain ⟨hkey, hnodup⟩ := List.nodup_cons.1 hnodup
      obtain ⟨hfound, hother, hcount⟩ := ih hrest hnodup
      have hne : ∀ m ∈ ms, m.1 ≠ key := by
        rintro m hm rfl
        exact hkey (List.mem_map.2 ⟨m, hm, rfl⟩)
      -- a node that tells nothing is left out, and a missing node tells nothing
      by_cases htells : (noteNil S isStruct t v nested).tells = true
      · rw [if_pos htells] at h
        obtain rfl := Except.ok.inj h
        have hlookup : ∀ k, k ≠ key → ((key, noteNil S isStruct t v nested) :: rest).lookup k =
            rest.lookup k := by
          intro k hk
          rw [List.lookup_cons, beq_eq_false_iff_ne.2 hk]
        have hself : ((key, noteNil S isStruct t v nested) :: rest).lookup key =
            some (noteNil S isStruct t v nested) := List.lookup_cons_self
        refine ⟨?_, ?_, ?_⟩
        · intro m hm
          rcases List.mem_cons.1 hm with rfl | hm
          · exact ⟨nested, hnested, by rw [hself]; rfl⟩
          · rw [hlookup _ (hne m hm)]
            exact hfound m hm
        · intro k hk
          rw [List.map_cons, List.mem_cons, not_or] at hk
          rw [hlookup k hk.1]
          exact hother k hk.2
        · rw [List.filter_cons_of_pos (by rw [hself]; rfl), List.length_cons, List.length_cons, ← hcount]
          refine congrArg (List.length · + 1) (List.filter_congr fun m hm => ?_)
          rw [hlookup _ (hne m hm)]
      · rw [if_neg htells] at h
        obtain rfl := Except.ok.inj h
        refine ⟨?_, ?_, ?_⟩
        · intro m hm
          rcases List.mem_cons.1 hm with rfl | hm
          · refine ⟨nested, hnested, ?_⟩
            rw [hother _ hkey]
            exact (tells_eq_false (Bool.not_eq_true _ ▸ htells)).symm
          · exact hfound m hm
        · intro k hk
          rw [List.map_cons, List.mem_cons, not_or] at hk
          exact hother k hk.2
        · rw [List.filter_cons_of_neg (by rw [hother _ hkey]; decide), hcount]

/-- The members are restored one after the other. -/
theorem restoreAll_eq {restore : τ → Val α → Presence → Except Failure (Val α)}
    {children : List (Label × Presence)}
    {P : Member τ α → Val α → Prop} {ms ms' : List (Member τ α)}
    (h : List.Forall₂ (fun m m' => m.1 = m'.1 ∧
      ∃ w, restore m'.2.1 m'.2.2 ((children.lookup m'.1).getD .none) = .ok w ∧ P m w) ms ms') :
    ∃ ws, restoreAll restore children ms' =
      .ok (ws, (ms.filter fun m => (children.lookup m.1).isSome).length) ∧ List.Forall₂ P ms ws := by
  induction h with
  | nil => exact ⟨[], rfl, .nil⟩
  | @cons m m' ms ms' hm _ ih =>
      obtain ⟨key, t, v⟩ := m
      obtain ⟨key', t', v'⟩ := m'
      obtain ⟨hkey, w, hw, hP⟩ := hm
      obtain rfl : key = key' := hkey
      obtain ⟨ws, hws, hall⟩ := ih
      refine ⟨w :: ws, ?_, .cons hP hall⟩
      unfold restoreAll
      dsimp only at hw
      rw [hw, hws]
      by_cases hfound : (children.lookup key).isSome = true
      · change Except.ok (w :: ws, if (children.lookup key).isSome = true then _ else _) = _
        rw [List.filter_cons, if_pos hfound, if_pos hfound]
        rfl
      · change Except.ok (w :: ws, if (children.lookup key).isSome = true then _ else _) = _
        rw [List.filter_cons, if_neg hfound, if_neg hfound]

/-! ## Members anew -/

/-- The value restored for a member is the member. -/
def Back (S : Types τ α) (m : Member τ α) (w : Val α) : Prop := Alike S m.2.1 m.2.2 w

theorem alike_fields {fields : List (Bool × τ)} {vs ws us : List (Val α)} {i : Nat}
    (h : Fields S (Wire S) fields (gobSafeFields S fields vs) ws)
    (hback : List.Forall₂ (Back S) (fieldMembers i fields vs) us) :
    Fields S (Alike S) fields vs (refill fields ws us) := by
  induction fields generalizing vs ws us i with
  | nil =>
      cases vs with
      | nil =>
          cases h
          exact .nil
      | cons v vs => cases h
  | cons f fields ih =>
      obtain ⟨exported, t⟩ := f
      cases vs with
      | nil => cases h
      | cons v vs =>
          unfold gobSafeFields at h
          cases exported with
          | true =>
              cases h with
              | exported hv hrest =>
                  cases hback with
                  | cons hu hus => exact .exported hu (ih hrest hus)
          | false =>
              cases h with
              -- a hidden field is no member: what arrived for it stays
              | hidden hrest => exact .hidden (ih hrest hback)

theorem alike_elems {elem : τ} {vs us : List (Val α)} {i : Nat}
    (hback : List.Forall₂ (Back S) (elemMembers elem i vs) us) :
      Fields S (Alike S) (elemFields elem vs) vs us := by
  induction vs generalizing us i with
  | nil =>
      cases hback
      exact .nil
  | cons v vs ih =>
      cases hback with
      | cons hu hus => exact .exported hu (ih hus)

theorem alike_entries {elem : τ} {es : List (Key × Val α)} {ms : List (Member τ α)} {us : List (Val α)}
    (hms : mapMembers elem es = .ok ms) (hback : List.Forall₂ (Back S) ms us) :
    es.length = us.length ∧ Fields S (Alike S) (elemFields elem es) (es.map Prod.snd) us := by
  induction es generalizing ms us with
  | nil =>
      obtain rfl := Except.ok.inj hms
      cases hback
      exact ⟨rfl, .nil⟩
  | cons e es ih =>
      obtain ⟨k, v⟩ := e
      unfold mapMembers at hms
      obtain ⟨key, hkey, hms⟩ := Check.andThen_eq_ok.1 hms
      obtain ⟨rest, hrest, hms⟩ := Check.andThen_eq_ok.1 hms
      obtain rfl := Except.ok.inj hms
      cases hback with
      | cons hu hus =>
          obtain ⟨hlength, hfields⟩ := ih hrest hus
          exact ⟨congrArg (· + 1) hlength, .exported hu hfields⟩

/-! ## One level -/

theorem nilElement_capturePresence {room : Nat} {t : τ} {v : Val α} {p : Presence}
    (h : capturePresence S room t v = .ok p) : p.nilElement = false := by
  cases room with
  | zero => cases h
  | succ room =>
      unfold capturePresence at h
      split at h
      · obtain ⟨inner, -, h⟩ := Check.andThen_eq_ok.1 h
        rw [← Except.ok.inj h]
        rfl
      · rw [← Except.ok.inj h]
        rfl
      · rw [← Except.ok.inj h]
        rfl
      · obtain ⟨ms, -, h⟩ := Check.andThen_eq_ok.1 h
        obtain ⟨children, -, h⟩ := Check.andThen_eq_ok.1 h
        rw [← Except.ok.inj h]
        rfl

/-- A nil pointer, where `gob` would refuse it. -/
def NilPointer (S : Types τ α) (t : τ) (v : Val α) : Prop := (S.shape t).isPointer = true ∧ v = .nil

theorem noteNil_of_not {isStruct : Bool} {t : τ} {v : Val α}
    (h : isStruct = true ∨ ¬ NilPointer S t v) (p : Presence) :
    noteNil S isStruct t v p = p := by
  obtain ⟨pointer, nilElement, children⟩ := p
  have hnote : (!isStruct && (S.shape t).isPointer && v.isNil) = false := by
    rcases h with rfl | hnot
    · rfl
    · cases isStruct with
      | true => rfl
      | false =>
          cases hpointer : (S.shape t).isPointer with
          | false => rfl
          | true =>
              cases v with
              | nil => exact absurd ⟨hpointer, rfl⟩ hnot
              | _ => rfl
  unfold noteNil
  rw [hnote, Bool.or_false]
  rfl

/-- With the given room the value is restored from what arrives of it, as its tree says. -/
def ExactAt (S : Types τ α) (room : Nat) (v : Val α) : Prop :=
  ∀ t w p element, capturePresence S room t v = .ok p → Wire S t (gobSafe S t element v) w →
    (element = false ∨ ¬ NilPointer S t v) → ∃ u, restorePresence S room t w p = .ok u ∧ Alike S t v u

def Exact (S : Types τ α) (room : Nat) : Prop := ∀ v, ExactAt S room v

/-- A nil pointer among elements went as a placeholder and is nil again. -/
theorem restore_nilPointer {room : Nat} {t : τ} {v w : Val α} {p : Presence} (hnil : NilPointer S t v)
    (hcapture : capturePresence S room t v = .ok p) (hwire : Wire S t (gobSafe S t true v) w) :
    restorePresence S room t w (noteNil S false t v p) = .ok .nil := by
  obtain ⟨hpointer, rfl⟩ := hnil
  rcases hshape : S.shape t with _ | _ | elem | _ | _ | _ | _ | _ <;> rw [hshape] at hpointer <;>
    try contradiction
  cases room with
  | zero => cases hcapture
  | succ room =>
      unfold capturePresence at hcapture
      rw [hshape] at hcapture
      obtain rfl := Except.ok.inj hcapture
      -- the placeholder points to zero, so it arrives as such or not at all
      have hplaced : notPlaceholder S t w = false := by
        unfold gobSafe at hwire
        rw [hshape] at hwire
        unfold notPlaceholder
        rw [hshape]
        cases hwire with
        | omitted hs h => rfl
        | @pointer _ elem' _ w hs h hzero =>
            rw [hshape] at hs
            obtain rfl := Shape.pointer.inj hs
            dsimp only
            rw [hzero rfl, isZero_zero _ elem rfl]
            rfl
      unfold restorePresence noteNil
      rw [hshape]
      dsimp only [Presence.nilElement, Presence.pointer, Presence.children, Presence.none, Shape.isPointer]
      rw [hplaced]
      rfl

/-- What the induction gives of the members of a value. -/
theorem restoreAll_members {room : Nat} (hexact : Exact S room) {isStruct : Bool} {ms ms' : List (Member τ α)}
    {children : List (Label × Presence)}
    (hcapture : captureAll S (capturePresence S room) isStruct ms = .ok children)
    (hnodup : (ms.map Prod.fst).Nodup) (htwins : List.Forall₂ (Twin S (!isStruct)) ms ms') :
    ∃ us, restoreAll (restorePresence S room) children ms' = .ok (us, children.length) ∧
      List.Forall₂ (Back S) ms us := by
  obtain ⟨hfound, -, hcount⟩ := captureAll_lookup hcapture hnodup
  rw [← hcount]
  refine restoreAll_eq ?_
  have hmem : List.Forall₂ (fun m m' => m ∈ ms ∧ Twin S (!isStruct) m m') ms ms' :=
    (List.forall₂_and_left _ _).2 ⟨fun _ hm => hm, htwins⟩
  refine hmem.imp ?_
  rintro ⟨key, t, v⟩ ⟨key', t', w⟩ ⟨hm, hkey, ht, hwire⟩
  obtain rfl : key = key' := hkey
  obtain rfl : t = t' := ht
  obtain ⟨nested, hnested, hlookup⟩ := hfound _ hm
  refine ⟨rfl, ?_⟩
  dsimp only at hlookup hnested hwire ⊢
  rw [hlookup]
  -- a nil pointer among elements has a mark, everything else its own tree
  by_cases hplain : isStruct = true ∨ ¬ NilPointer S t v
  · rw [noteNil_of_not hplain]
    refine hexact v t w nested _ hnested hwire (hplain.imp_left ?_)
    rintro rfl
    rfl
  · rw [not_or, not_not, Bool.not_eq_true] at hplain
    obtain ⟨rfl, hnil⟩ := hplain
    refine ⟨.nil, restore_nilPointer hnil hnested hwire, ?_⟩
    obtain ⟨-, rfl⟩ := hnil
    exact .nil t

/-! ## All levels -/

theorem restorePresence_members {room : Nat} {t : τ} {w : Val α} {children : List (Label × Presence)}
    (hpointer : (S.shape t).isPointer = false) (hatomic : S.shape t ≠ .atomic) :
    restorePresence S (room + 1) t w (.node false false children) = (do
      let ms ← members S t w
      let (ws, visited) ← restoreAll (restorePresence S room) children ms
      if visited ≠ children.length then .error (.text "unknown pointer presence member")
      else .ok (replaceMembers S t w ws)) := by
  unfold restorePresence
  rcases hs : S.shape t with _ | _ | _ | _ | _ | _ | _ | _
  case atomic => exact absurd hs hatomic
  case pointer =>
    rw [hs] at hpointer
    cases hpointer
  all_goals rfl

theorem restorePresence_pointer {room : Nat} {t elem : τ} {w : Val α} {inner : Presence}
    (hs : S.shape t = .pointer elem) :
    restorePresence S (room + 1) t w (.node true false [(.star, inner)]) = (do
      let u ← restorePresence S room elem (pointee S elem w) inner
      .ok (.pointer u)) := by
  conv_lhs => unfold restorePresence
  rw [hs]
  rfl

/-- A value that is no pointer is captured by its members and restored by them. -/
theorem restore_members {room : Nat} (hexact : Exact S room) {t : τ} {v w : Val α} {p : Presence}
    {ms ms' : List (Member τ α)} (hpointer : (S.shape t).isPointer = false) (hatomic : S.shape t ≠ .atomic)
    (hcapture : capturePresence S (room + 1) t v = .ok p) (hms : members S t v = .ok ms)
    (hms' : members S t w = .ok ms') (hnodup : (ms.map Prod.fst).Nodup)
    (htwins : List.Forall₂ (Twin S (!(S.shape t).isStruct)) ms ms') :
    ∃ us, restorePresence S (room + 1) t w p = .ok (replaceMembers S t w us) ∧ List.Forall₂ (Back S) ms us := by
  unfold capturePresence at hcapture
  split at hcapture
  · rename_i hs
    rw [hs] at hpointer
    cases hpointer
  · rename_i hs _
    rw [hs] at hpointer
    cases hpointer
  · rename_i hs
    exact absurd hs hatomic
  · rw [hms] at hcapture
    change (captureAll S (capturePresence S room) (S.shape t).isStruct ms >>= _) = _ at hcapture
    obtain ⟨children, hchildren, hp⟩ := Check.andThen_eq_ok.1 hcapture
    obtain rfl := Except.ok.inj hp
    obtain ⟨us, hrestore, hback⟩ := restoreAll_members hexact hchildren hnodup htwins
    refine ⟨us, ?_, hback⟩
    rw [restorePresence_members hpointer hatomic, hms']
    change (restoreAll _ _ _ >>= _) = _
    rw [hrestore]
    exact if_neg (not_not.2 rfl)

theorem members_of_capture {room : Nat} {t : τ} {v : Val α} {p : Presence}
    (hpointer : (S.shape t).isPointer = false)
    (hatomic : S.shape t ≠ .atomic) (hcapture : capturePresence S (room + 1) t v = .ok p) :
    ∃ ms, members S t v = .ok ms := by
  unfold capturePresence at hcapture
  split at hcapture
  · rename_i hs
    rw [hs] at hpointer
    cases hpointer
  · rename_i hs _
    rw [hs] at hpointer
    cases hpointer
  · rename_i hs
    exact absurd hs hatomic
  · obtain ⟨ms, hms, -⟩ := Check.andThen_eq_ok.1 hcapture
    exact ⟨ms, hms⟩

/-- A value without members comes back as it arrived. -/
theorem restore_bare {room : Nat} (hexact : Exact S room) {t : τ} {v w : Val α} {p : Presence}
    (hpointer : (S.shape t).isPointer = false) (hatomic : S.shape t ≠ .atomic)
    (hcapture : capturePresence S (room + 1) t v = .ok p) (hv : members S t v = .ok [])
    (hw : members S t w = .ok [])
    (hsame : replaceMembers S t w [] = w) (halike : Alike S t v w) :
    ∃ u, restorePresence S (room + 1) t w p = .ok u ∧ Alike S t v u := by
  obtain ⟨us, hrestore, hback⟩ :=
    restore_members hexact hpointer hatomic hcapture hv hw List.nodup_nil .nil
  cases hback
  rw [hsame] at hrestore
  exact ⟨w, hrestore, halike⟩

theorem exact_leaf {room : Nat} (hexact : Exact S room) (a : α) : ExactAt S (room + 1) (.leaf a) := by
  intro t w p element hcapture hwire hplain
  unfold gobSafe at hwire
  cases hwire with
  | leaf hs =>
      -- a scalar has no members, an atomic value is not looked into
      rcases hs with hs | hs
      · have hmembers : members S t (.leaf a) = .ok [] := by
          unfold members
          rw [hs]
        have hsame : replaceMembers S t (.leaf a) [] = .leaf a := by
          unfold replaceMembers
          rw [hs]
        exact restore_bare hexact (by rw [hs]; rfl) (by rw [hs]; exact nofun) hcapture hmembers
          hmembers hsame
          (.leaf t a)
      · unfold capturePresence at hcapture
        rw [hs] at hcapture
        obtain rfl := Except.ok.inj hcapture
        refine ⟨.leaf a, ?_, .leaf t a⟩
        unfold restorePresence
        rw [hs]
        rfl

theorem exact_nil {room : Nat} (hexact : Exact S room) : ExactAt S (room + 1) .nil := by
  intro t w p element hcapture hwire hplain
  -- only an element would have been replaced
  have hsafe : gobSafe S t element .nil = .nil := by
    unfold gobSafe
    split
    · rename_i hs
      rcases hplain with rfl | hnot
      · rfl
      · exact absurd ⟨by rw [hs]; rfl, rfl⟩ hnot
    · rfl
  rw [hsafe] at hwire
  have hmembers : ∀ elem, S.shape t = .slice elem ∨ S.shape t = .map elem → members S t .nil = .ok [] := by
    rintro elem (hs | hs)
    · unfold members
      rw [hs]
    · unfold members
      rw [hs]
  have hbare : ∀ elem, S.shape t = .slice elem ∨ S.shape t = .map elem →
      (S.shape t).isPointer = false ∧ S.shape t ≠ .atomic := by
    rintro elem (hs | hs)
    · rw [hs]
      exact ⟨rfl, nofun⟩
    · rw [hs]
      exact ⟨rfl, nofun⟩
  cases hwire with
  | @nil _ elem hs =>
      rcases hs with hs | hs
      · unfold capturePresence at hcapture
        rw [hs] at hcapture
        obtain rfl := Except.ok.inj hcapture
        refine ⟨.nil, ?_, .nil t⟩
        unfold restorePresence
        rw [hs]
        rfl
      · have hsame : replaceMembers S t .nil [] = .nil := by
          unfold replaceMembers
          rcases hs with hs | hs <;> rw [hs]
        exact restore_bare hexact (hbare elem hs).1 (hbare elem hs).2 hcapture
          (hmembers elem hs) (hmembers elem hs)
          hsame (.nil t)
  | @nilSlice _ elem hs =>
      refine restore_bare hexact (hbare elem (.inl hs)).1 (hbare elem (.inl hs)).2 hcapture
        (hmembers elem (.inl hs)) ?_ ?_ (.nilSlice hs)
      · unfold members
        rw [hs]
        rfl
      · unfold replaceMembers
        rw [hs]
  | @nilMap _ elem hs =>
      refine restore_bare hexact (hbare elem (.inr hs)).1 (hbare elem (.inr hs)).2 hcapture
        (hmembers elem (.inr hs)) ?_ ?_ (.nilMap hs)
      · unfold members
        rw [hs]
        rfl
      · unfold replaceMembers
        rw [hs]
        rfl

theorem exact_pointer {room : Nat} (hexact : Exact S room) (v : Val α) : ExactAt S (room + 1) (.pointer v) := by
  intro t w p element hcapture hwire hplain
  rcases hshape : S.shape t with _ | _ | elem | _ | _ | _ | _ | _
  case pointer =>
    unfold gobSafe at hwire
    unfold capturePresence at hcapture
    rw [hshape] at hwire hcapture
    obtain ⟨inner, hinner, hp⟩ := Check.andThen_eq_ok.1 hcapture
    obtain rfl := Except.ok.inj hp
    -- a pointer that was dropped is made anew, with zero for its target
    have hback : Wire S elem (gobSafe S elem false v) (pointee S elem w) →
        ∃ u, restorePresence S (room + 1) t w (.node true false [(.star, inner)]) = .ok u ∧
          Alike S t (.pointer v) u := by
      intro hold
      obtain ⟨u, hu, halike⟩ := hexact v elem _ inner false hinner hold (.inl rfl)
      refine ⟨.pointer u, ?_, .pointer hshape halike⟩
      rw [restorePresence_pointer hshape, hu]
      rfl
    cases hwire with
    | pointer hs h hzero =>
        rw [hshape] at hs
        obtain rfl := Shape.pointer.inj hs
        exact hback h
    | omitted hs h =>
        rw [hshape] at hs
        obtain rfl := Shape.pointer.inj hs
        exact hback h
  all_goals
    unfold gobSafe at hwire
    rw [hshape] at hwire
    cases hwire with
    | pointer hs h hzero => rw [hshape] at hs; cases hs
    | omitted hs h => rw [hshape] at hs; cases hs

theorem exact_struct {room : Nat} (hexact : Exact S room) (vs : List (Val α)) : ExactAt S (room + 1) (.struct vs) := by
  intro t w p element hcapture hwire hplain
  unfold gobSafe at hwire
  rcases hshape : S.shape t with _ | _ | _ | fields | _ | _ | _ | _ <;> rw [hshape] at hwire
  case struct =>
    cases hwire with
    | @struct _ fields' _ ws hs h =>
        rw [hshape] at hs
        obtain rfl := Shape.struct.inj hs
        have hms : ∀ us, members S t (.struct us) = .ok (fieldMembers 0 fields us) := by
          intro us
          unfold members
          rw [hshape]
        obtain ⟨us, hrestore, hback⟩ := restore_members hexact (by rw [hshape]; rfl)
          (by rw [hshape]; exact nofun)
          hcapture (hms vs) (hms ws) (nodup_fieldMembers 0 fields vs) (by rw [hshape]; exact twin_fields h 0)
        have hreplace : replaceMembers S t (.struct ws) us = .struct (refill fields ws us) := by
          unfold replaceMembers
          rw [hshape]
        rw [hreplace] at hrestore
        exact ⟨_, hrestore, .struct hshape (alike_fields h hback)⟩
  all_goals
    cases hwire with
    | struct hs h => rw [hshape] at hs; cases hs

theorem exact_array {room : Nat} (hexact : Exact S room) (vs : List (Val α)) : ExactAt S (room + 1) (.array vs) := by
  intro t w p element hcapture hwire hplain
  unfold gobSafe at hwire
  rcases hshape : S.shape t with _ | _ | _ | _ | ⟨length, elem⟩ | _ | _ | _ <;> rw [hshape] at hwire
  case array =>
    cases hwire with
    | @array _ elem' _ _ ws hs h =>
        rw [hshape] at hs
        obtain ⟨rfl, rfl⟩ := Shape.array.inj hs
        have hms : ∀ us, members S t (.array us) = .ok (elemMembers elem 0 us) := by
          intro us
          unfold members
          rw [hshape]
        obtain ⟨us, hrestore, hback⟩ := restore_members hexact (by rw [hshape]; rfl)
          (by rw [hshape]; exact nofun)
          hcapture (hms vs) (hms ws) (by rw [elemMembers_eq]; exact nodup_fieldMembers 0 _ vs)
          (by rw [hshape]; exact twin_elems h 0)
        have hreplace : replaceMembers S t (.array ws) us = .array us := by
          unfold replaceMembers
          rw [hshape]
        rw [hreplace] at hrestore
        exact ⟨_, hrestore, .array hshape (alike_elems hback)⟩
  all_goals
    cases hwire with
    | array hs h => rw [hshape] at hs; cases hs

theorem exact_slice {room : Nat} (hexact : Exact S room) (vs : List (Val α)) : ExactAt S (room + 1) (.slice vs) := by
  intro t w p element hcapture hwire hplain
  unfold gobSafe at hwire
  rcases hshape : S.shape t with _ | _ | _ | _ | _ | elem | _ | _ <;> rw [hshape] at hwire
  case slice =>
    have hms : ∀ us, members S t (.slice us) = .ok (elemMembers elem 0 us) := by
      intro us
      unfold members
      rw [hshape]
    have hpointer : (S.shape t).isPointer = false := by rw [hshape]; rfl
    have hatomic : S.shape t ≠ .atomic := by rw [hshape]; exact nofun
    dsimp only at hwire
    -- an empty slice may arrive as nil, one with elements arrives with as many
    generalize hsafe : gobSafeElems S elem vs = safe at hwire
    cases hwire with
    | @slice _ elem' _ ws hs h =>
        rw [hshape] at hs
        obtain rfl := Shape.slice.inj hs
        obtain rfl := hsafe
        obtain ⟨us, hrestore, hback⟩ := restore_members hexact hpointer hatomic hcapture (hms vs) (hms ws)
          (by rw [elemMembers_eq]; exact nodup_fieldMembers 0 _ vs) (by rw [hshape]; exact twin_elems h 0)
        have hreplace : replaceMembers S t (.slice ws) us = .slice us := by
          unfold replaceMembers
          rw [hshape]
        rw [hreplace] at hrestore
        exact ⟨_, hrestore, .slice hshape (alike_elems hback)⟩
    | emptySlice hs =>
        cases vs with
        | cons v vs => cases hsafe
        | nil =>
            refine restore_bare hexact hpointer hatomic hcapture (hms []) ?_ ?_ (.emptySlice hshape)
            · unfold members
              rw [hshape]
            · unfold replaceMembers
              rw [hshape]
  all_goals
    cases hwire with
    | slice hs h => rw [hshape] at hs; cases hs
    | emptySlice hs => rw [hshape] at hs; cases hs

theorem exact_map {room : Nat} (hexact : Exact S room) (es : List (Key × Val α)) : ExactAt S (room + 1) (.map es) := by
  intro t w p element hcapture hwire hplain
  unfold gobSafe at hwire
  rcases hshape : S.shape t with _ | _ | _ | _ | _ | _ | elem | _ <;> rw [hshape] at hwire
  case map =>
    have hms : ∀ fs, members S t (.map fs) = mapMembers elem fs := by
      intro fs
      unfold members
      rw [hshape]
    have hpointer : (S.shape t).isPointer = false := by rw [hshape]; rfl
    have hatomic : S.shape t ≠ .atomic := by rw [hshape]; exact nofun
    -- every key had a label when the tree was made
    obtain ⟨ms, hcaptured⟩ := members_of_capture hpointer hatomic hcapture
    have hentries : mapMembers elem es = .ok ms := (hms es).symm.trans hcaptured
    dsimp only at hwire
    generalize hsafe : gobSafeEntries S elem es = safe at hwire
    cases hwire with
    | @map _ elem' _ fs hs hkeys hnodup h =>
        rw [hshape] at hs
        obtain rfl := Shape.map.inj hs
        obtain rfl := hsafe
        obtain ⟨ms', hms', htwins⟩ := twin_entries hentries hkeys h
        rw [keys_gobSafeEntries] at hkeys hnodup
        obtain ⟨us, hrestore, hback⟩ := restore_members hexact hpointer hatomic hcapture hcaptured
          ((hms fs).trans hms') (nodup_mapMembers hentries hnodup) (by rw [hshape]; exact htwins)
        have hreplace : replaceMembers S t (.map fs) us = .map ((fs.map Prod.fst).zip us) := by
          unfold replaceMembers
          rw [hshape]
        rw [hreplace] at hrestore
        obtain ⟨hlength, halike⟩ := alike_entries hentries hback
        have hfs : (fs.map Prod.fst).length = us.length := by
          rw [← hkeys, List.length_map, hlength]
        refine ⟨_, hrestore, .map hshape ?_ ?_⟩
        · rw [List.map_fst_zip hfs.le]
          exact hkeys
        · rw [List.map_snd_zip hfs.ge]
          exact halike
    | emptyMap hs =>
        cases es with
        | cons e es => cases hsafe
        | nil =>
            refine restore_bare hexact hpointer hatomic hcapture (hms []) ?_ ?_ (.emptyMap hshape)
            · unfold members
              rw [hshape]
            · unfold replaceMembers
              rw [hshape]
  all_goals
    cases hwire with
    | map hs hkeys hnodup h => rw [hshape] at hs; cases hs
    | emptyMap hs => rw [hshape] at hs; cases hs

theorem exact_interface (room : Nat) (isNil : Bool) : ExactAt S (room + 1) (.interface isNil) := by
  intro t w p element hcapture hwire hplain
  unfold gobSafe at hwire
  cases hwire with
  | interface hs =>
      -- the tree of an interface is an error
      unfold capturePresence members at hcapture
      rw [hs] at hcapture
      cases hcapture

theorem exact_succ {room : Nat} (hexact : Exact S room) : Exact S (room + 1) := by
  intro v
  cases v with
  | leaf a => exact exact_leaf hexact a
  | nil => exact exact_nil hexact
  | pointer v => exact exact_pointer hexact v
  | struct vs => exact exact_struct hexact vs
  | array vs => exact exact_array hexact vs
  | slice vs => exact exact_slice hexact vs
  | map es => exact exact_map hexact es
  | interface isNil => exact exact_interface room isNil

theorem exact_all (room : Nat) : Exact S room := by
  induction room with
  | zero =>
      intro v t w p element hcapture
      cases hcapture
  | succ room ih => exact exact_succ ih

/-! ## The round trip -/

/-- What the codec relies on. -/
structure Gob.Faithful (S : Types τ α) (g : Gob τ α) : Prop where
  value : ∀ t v raw, g.encode t v = .ok raw → ∃ w, g.decode t raw = .ok w ∧ Wire S t v w
  envelope : ∀ env raw, g.encodeEnvelope env = .ok raw → g.decodeEnvelope raw = .ok env

/-- What was marshalled is unmarshalled: every nil pointer is nil, every other pointer is not and
points to what it pointed to, and the exported fields, elements and entries are those there were. -/
theorem typed_round_trip {g : Gob τ α} (hg : g.Faithful S) {t : τ} {v : Val α} {raw : List UInt8}
    (h : MarshalTyped S g t v = .ok raw) :
    ∃ t' x u, target S t v = .ok (t', x) ∧ UnmarshalTyped S g raw t' = .ok u ∧ Alike S t' x u := by
  unfold MarshalTyped at h
  obtain ⟨⟨t', x⟩, htarget, h⟩ := Check.andThen_eq_ok.1 h
  obtain ⟨p, hcapture, h⟩ := Check.andThen_eq_ok.1 h
  obtain ⟨body, hbody, henvelope⟩ := Check.andThen_eq_ok.1 h
  obtain ⟨w, hw, hwire⟩ := hg.value _ _ _ hbody
  obtain ⟨u, hrestore, halike⟩ := exact_all 65 x t' w p false hcapture hwire (.inl rfl)
  refine ⟨t', x, u, htarget, ?_, halike⟩
  unfold UnmarshalTyped
  rw [hg.envelope _ _ henvelope]
  change (g.decode t' body >>= fun fresh => restorePresence S 65 t' fresh p) = _
  rw [hw]
  exact hrestore

/-! A row with a pointer to zero, a slice with nil in it and a field that is not exported. -/

inductive SampleType
  | number
  | known
  | history
  | row

def sampleTypes : Types SampleType Nat where
  shape
    | .number => .basic
    | .known => .pointer .number
    | .history => .slice .known
    | .row => .struct [(true, .known), (true, .history), (false, .number)]
  zeroLeaf _ := 0
  isZeroLeaf a := a == 0
  zero
    | .number => .leaf 0
    | .known | .history => .nil
    | .row => .struct [.nil, .nil, .leaf 0]
  zero_eq t := by cases t <;> rfl
  isZeroLeaf_zeroLeaf _ := rfl

def sampleRow : Val Nat := .struct [.pointer (.leaf 0), .slice [.nil, .pointer (.leaf 0)], .leaf 7]

/-- The row as it is sent and received, and its tree. -/
def sampleGob : Gob SampleType Nat where
  encode
    | .row, .struct [.pointer (.leaf 0), .slice [.pointer (.leaf 0), .pointer (.leaf 0)], .leaf 7] => .ok [1]
    | _, _ => .error .recovery
  decode
    | .row, [1] => .ok (.struct [.nil, .slice [.pointer (.leaf 0), .pointer (.leaf 0)], .leaf 0])
    | _, _ => .error .recovery
  encodeEnvelope
    | ⟨1, [1], .node false false [(.number 0, .node true false [(.star, .node false false [])]),
        (.number 1, .node false false [(.number 0, .node false true []),
          (.number 1, .node true false [(.star, .node false false [])])])]⟩ => .ok [2]
    | _ => .error .recovery
  decodeEnvelope
    | [2] => .ok ⟨1, [1], .node false false [(.number 0, .node true false [(.star, .node false false [])]),
        (.number 1, .node false false [(.number 0, .node false true []),
          (.number 1, .node true false [(.star, .node false false [])])])]⟩
    | _ => .error .recovery

theorem sampleGob_faithful : sampleGob.Faithful sampleTypes where
  value := by
    intro t v raw h
    unfold sampleGob at h
    dsimp only at h
    split at h
    · obtain rfl := Except.ok.inj h
      refine ⟨_, rfl, .struct rfl (.exported (.omitted rfl (.leaf (.inl rfl))) (.exported ?_ (.hidden .nil)))⟩
      have hzero : Wire sampleTypes .known (.pointer (.leaf 0)) (.pointer (.leaf 0)) :=
        .pointer rfl (.leaf (.inl rfl)) fun _ => rfl
      exact .slice rfl (.exported hzero (.exported hzero .nil))
    · cases h
  envelope := by
    intro env raw h
    unfold sampleGob at h
    dsimp only at h
    split at h
    · obtain rfl := Except.ok.inj h
      rfl
    · cases h

theorem sampleRow_marshal : MarshalTyped sampleTypes sampleGob .row sampleRow = .ok [2] := rfl

theorem typed_round_trip_sampleRow : ∃ t' x u, target sampleTypes .row sampleRow = .ok (t', x) ∧
    UnmarshalTyped sampleTypes sampleGob [2] t' = .ok u ∧ Alike sampleTypes t' x u :=
  typed_round_trip sampleGob_faithful sampleRow_marshal

/-- A field that is not exported does not come back. -/
theorem unexported_lost : MarshalTyped sampleTypes sampleGob .row sampleRow = .ok [2] ∧
    UnmarshalTyped sampleTypes sampleGob [2] .row =
      .ok (.struct [.pointer (.leaf 0), .slice [.nil, .pointer (.leaf 0)], .leaf 0]) ∧
    sampleRow = .struct [.pointer (.leaf 0), .slice [.nil, .pointer (.leaf 0)], .leaf 7] :=
  ⟨rfl, rfl, rfl⟩

end MarketInfo.Checkpoint
