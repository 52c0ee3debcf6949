import Mathlib

/-! # Compact JSON

Flat objects of texts, integers and lists of texts, as a compact encoder writes them.
What is written tells where it ends, so two objects with one text are equal.
-/

namespace Json

abbrev Text := List Char

def quoteMark : Char := Char.ofNat 34
def backslash : Char := Char.ofNat 92

/-! ## Texts -/

/-- Four hexadecimal digits. -/
def hex4 (n : Nat) : Text :=
  [Nat.digitChar (n / 4096 % 16), Nat.digitChar (n / 256 % 16), Nat.digitChar (n / 16 % 16),
    Nat.digitChar (n % 16)]

/-- A character inside quotes. -/
def escape (c : Char) : Text :=
  if c = quoteMark ∨ c = backslash then [backslash, c]
  else if c.toNat = 8 then [backslash, 'b']
  else if c.toNat = 12 then [backslash, 'f']
  else if c.toNat = 10 then [backslash, 'n']
  else if c.toNat = 13 then [backslash, 'r']
  else if c.toNat = 9 then [backslash, 't']
  else if c.toNat < 32 ∨ c.toNat = 0x2028 ∨ c.toNat = 0x2029 then backslash :: 'u' :: hex4 c.toNat
  else [c]

def quote (s : Text) : Text := quoteMark :: (s.flatMap escape ++ [quoteMark])

def hexValue (c : Char) : Nat := if c.toNat < 58 then c.toNat - 48 else c.toNat - 87

/-- The first character inside quotes, and what is left. -/
def unescape : Text → Option (Char × Text)
  | [] => none
  | c :: rest =>
      if c = quoteMark then none
      else if c = backslash then
        match rest with
        | [] => none
        | e :: rest =>
            if e = 'b' then some (Char.ofNat 8, rest)
            else if e = 'f' then some (Char.ofNat 12, rest)
            else if e = 'n' then some (Char.ofNat 10, rest)
            else if e = 'r' then some (Char.ofNat 13, rest)
            else if e = 't' then some (Char.ofNat 9, rest)
            else if e = 'u' then
              match rest with
              | a :: b :: c :: d :: rest =>
                  some (Char.ofNat (hexValue a * 4096 + hexValue b * 256 + hexValue c * 16 + hexValue d), rest)
              | _ => none
            else some (e, rest)
      else some (c, rest)

theorem hexValue_digitChar {n : Nat} (h : n < 16) : hexValue (Nat.digitChar n) = n := by
  interval_cases n <;> rfl

theorem unhex_hex4 {n : Nat} (h : n < 65536) :
    hexValue (Nat.digitChar (n / 4096 % 16)) * 4096 + hexValue (Nat.digitChar (n / 256 % 16)) * 256 +
      hexValue (Nat.digitChar (n / 16 % 16)) * 16 + hexValue (Nat.digitChar (n % 16)) = n := by
  rw [hexValue_digitChar (Nat.mod_lt _ (by norm_num)), hexValue_digitChar (Nat.mod_lt _ (by norm_num)),
    hexValue_digitChar (Nat.mod_lt _ (by norm_num)), hexValue_digitChar (Nat.mod_lt _ (by norm_num))]
  omega

theorem ofNat_of_toNat {c : Char} {n : Nat} (h : c.toNat = n) : Char.ofNat n = c := by
  rw [← h, Char.ofNat_toNat]

theorem unescape_escape (c : Char) (rest : Text) : unescape (escape c ++ rest) = some (c, rest) := by
  unfold escape
  split
  · rename_i hspecial
    rcases hspecial with rfl | rfl
    · rfl
    · rfl
  · rename_i hplain
    split
    · rename_i h
      exact congrArg (fun c => some (c, rest)) (ofNat_of_toNat h)
    · split
      · rename_i h
        exact congrArg (fun c => some (c, rest)) (ofNat_of_toNat h)
      · split
        · rename_i h
          exact congrArg (fun c => some (c, rest)) (ofNat_of_toNat h)
        · split
          · rename_i h
            exact congrArg (fun c => some (c, rest)) (ofNat_of_toNat h)
          · split
            · rename_i h
              exact congrArg (fun c => some (c, rest)) (ofNat_of_toNat h)
            · split
              · rename_i h
                have hsmall : c.toNat < 65536 := by omega
                exact congrArg (fun c => some (c, rest)) (ofNat_of_toNat (unhex_hex4 hsmall).symm)
              · rw [not_or] at hplain
                show unescape (c :: rest) = _
                unfold unescape
                dsimp only
                rw [if_neg hplain.1, if_neg hplain.2]

/-- What is inside the quotes ends at the first bare quote. -/
theorem flatMap_escape_inj {s t r r' : Text}
    (h : s.flatMap escape ++ quoteMark :: r = t.flatMap escape ++ quoteMark :: r') : s = t ∧ r = r' := by
  have hend : ∀ rest, unescape (quoteMark :: rest) = none := fun _ => rfl
  induction s generalizing t with
  | nil =>
      rcases t with _ | ⟨c, t⟩
      · exact ⟨rfl, (List.cons.inj h).2⟩
      · have hread := congrArg unescape h
        rw [List.flatMap_nil, List.nil_append, hend, List.flatMap_cons, List.append_assoc,
          unescape_escape] at hread
        cases hread
  | cons c s ih =>
      rcases t with _ | ⟨d, t⟩
      · have hread := congrArg unescape h
        rw [List.flatMap_nil, List.nil_append, hend, List.flatMap_cons, List.append_assoc,
          unescape_escape] at hread
        cases hread
      · have hread := congrArg unescape h
        rw [List.flatMap_cons, List.append_assoc, unescape_escape, List.flatMap_cons, List.append_assoc,
          unescape_escape] at hread
        obtain ⟨rfl, hrest⟩ := Prod.mk.inj (Option.some.inj hread)
        obtain ⟨rfl, hr⟩ := ih hrest
        exact ⟨rfl, hr⟩

theorem quote_inj {s t r r' : Text} (h : quote s ++ r = quote t ++ r') : s = t ∧ r = r' := by
  unfold quote at h
  rw [List.cons_append, List.cons_append, List.append_assoc, List.append_assoc] at h
  exact flatMap_escape_inj (List.cons.inj h).2

/-! ## Integers -/

def intText (n : Int) : Text :=
  if n < 0 then '-' :: Nat.toDigits 10 n.natAbs else Nat.toDigits 10 n.natAbs

/-- The text does not go on with a digit. -/
def Stops (r : Text) : Prop := ∀ c ∈ r.head?, c.isDigit = false

theorem takeWhile_digits {n : Nat} {r : Text} (h : Stops r) :
    (Nat.toDigits 10 n ++ r).takeWhile Char.isDigit = Nat.toDigits 10 n := by
  rw [List.takeWhile_append_of_pos fun c hc => Nat.isDigit_of_mem_toDigits (by norm_num) (by norm_num) hc]
  rcases r with _ | ⟨c, r⟩
  · simp
  · rw [List.takeWhile_cons_of_neg (by rw [h c rfl]; decide), List.append_nil]

theorem toDigits_inj {m n : Nat} {r r' : Text} (hr : Stops r) (hr' : Stops r')
    (h : Nat.toDigits 10 m ++ r = Nat.toDigits 10 n ++ r') : m = n ∧ r = r' := by
  have hdigits : Nat.toDigits 10 m = Nat.toDigits 10 n := by
    rw [← takeWhile_digits (n := m) hr, h, takeWhile_digits hr']
  have hsame : m = n := by
    rw [← Nat.ofDigitChars_ten_toDigits (n := m), hdigits, Nat.ofDigitChars_ten_toDigits]
  rw [hdigits] at h
  exact ⟨hsame, List.append_cancel_left h⟩

theorem head_toDigits (n : Nat) : ∃ c rest, Nat.toDigits 10 n = c :: rest ∧ c.isDigit = true := by
  rcases hdigits : Nat.toDigits 10 n with _ | ⟨c, rest⟩
  · exact absurd hdigits Nat.toDigits_ne_nil
  · refine ⟨c, rest, rfl, ?_⟩
    exact Nat.isDigit_of_mem_toDigits (b := 10) (n := n) (by norm_num) (by norm_num)
      (hdigits ▸ List.mem_cons_self)

/-- No zero leads the digits of a positive number. -/
theorem head_toDigits_pos {n : Nat} (h : 0 < n) :
    ∃ c rest, Nat.toDigits 10 n = c :: rest ∧ c ∈ ['1', '2', '3', '4', '5', '6', '7', '8', '9'] := by
  induction n using Nat.strong_induction_on with
  | _ n ih =>
      rw [Nat.toDigits_eq_if (by norm_num)]
      split
      · rename_i hlt
        refine ⟨Nat.digitChar n, [], rfl, ?_⟩
        interval_cases n <;> simp [Nat.digitChar]
      · rename_i hge
        obtain ⟨c, rest, hdigits, hc⟩ := ih (n / 10) (by omega) (by omega)
        exact ⟨c, rest ++ [Nat.digitChar (n % 10)], by rw [hdigits, List.cons_append], hc⟩

theorem head_intText (n : Int) : ∃ c rest, intText n = c :: rest ∧ (c.isDigit = true ∨ c = '-') := by
  unfold intText
  split
  · exact ⟨'-', _, rfl, .inr rfl⟩
  · obtain ⟨c, rest, hdigits, hc⟩ := head_toDigits n.natAbs
    exact ⟨c, rest, hdigits, .inl hc⟩

theorem intText_inj {m n : Int} {r r' : Text} (hr : Stops r) (hr' : Stops r')
    (h : intText m ++ r = intText n ++ r') : m = n ∧ r = r' := by
  have hminus : ∀ k r'' r''', ¬ ('-' :: r'' = Nat.toDigits 10 k ++ r''') := by
    intro k r'' r''' heq
    obtain ⟨c, rest, hdigits, hc⟩ := head_toDigits k
    rw [hdigits, List.cons_append] at heq
    obtain ⟨rfl, -⟩ := List.cons.inj heq
    cases hc
  unfold intText at h
  split at h
  · split at h
    · obtain ⟨hsame, hrest⟩ := toDigits_inj hr hr' (List.cons.inj h).2
      exact ⟨by omega, hrest⟩
    · exact absurd h (hminus _ _ _)
  · split at h
    · exact absurd h.symm (hminus _ _ _)
    · obtain ⟨hsame, hrest⟩ := toDigits_inj hr hr' h
      exact ⟨by omega, hrest⟩

/-! ## Lists between brackets -/

section Lists

variable {α : Type*} {write : α → Text} {stop : Text → Prop} {close : Char}

/-- Where an item ends is told by what it is, given what comes after it. -/
def SelfDelimiting (stop : Text → Prop) (write : α → Text) : Prop :=
  ∀ a b r r', stop r → stop r' → write a ++ r = write b ++ r' → a = b ∧ r = r'

/-- Items with commas between them. -/
def items (write : α → Text) : List α → Text
  | [] => []
  | a :: rest => write a ++ rest.flatMap fun b => ',' :: write b

theorem more_inj {as bs : List α} {r r' : Text}
    (hwrite : ∀ a ∈ as, ∀ b r r', stop r → stop r' → write a ++ r = write b ++ r' → a = b ∧ r = r')
    (hclose : close ≠ ',') (hstop : ∀ r, stop (',' :: r) ∧ stop (close :: r))
    (h : (as.flatMap fun b => ',' :: write b) ++ close :: r =
      (bs.flatMap fun b => ',' :: write b) ++ close :: r') : as = bs ∧ r = r' := by
  have hnext : ∀ (cs : List α) r, stop ((cs.flatMap fun b => ',' :: write b) ++ close :: r) := by
    intro cs r
    cases cs with
    | nil => exact (hstop r).2
    | cons c cs => exact (hstop _).1
  induction as generalizing bs with
  | nil =>
      rcases bs with _ | ⟨b, bs⟩
      · exact ⟨rfl, (List.cons.inj h).2⟩
      · exact absurd (List.cons.inj h).1 hclose
  | cons a as ih =>
      rcases bs with _ | ⟨b, bs⟩
      · exact absurd (List.cons.inj h).1.symm hclose
      · rw [List.flatMap_cons, List.flatMap_cons, List.append_assoc, List.append_assoc] at h
        obtain ⟨rfl, hrest⟩ := hwrite a List.mem_cons_self b _ _ (hnext as r) (hnext bs r') (List.cons.inj h).2
        obtain ⟨rfl, hr⟩ := ih (fun b hb => hwrite b (List.mem_cons_of_mem a hb)) hrest
        exact ⟨rfl, hr⟩

theorem items_inj {as bs : List α} {r r' : Text}
    (hwrite : ∀ a ∈ as, ∀ b r r', stop r → stop r' → write a ++ r = write b ++ r' → a = b ∧ r = r')
    (hclose : close ≠ ',') (hstop : ∀ r, stop (',' :: r) ∧ stop (close :: r))
    (hopen : ∀ a r r', write a ++ r ≠ close :: r')
    (h : items write as ++ close :: r = items write bs ++ close :: r') : as = bs ∧ r = r' := by
  have hnext : ∀ (cs : List α) r, stop ((cs.flatMap fun b => ',' :: write b) ++ close :: r) := by
    intro cs r
    cases cs with
    | nil => exact (hstop r).2
    | cons c cs => exact (hstop _).1
  rcases as with _ | ⟨a, as⟩
  · rcases bs with _ | ⟨b, bs⟩
    · exact ⟨rfl, (List.cons.inj h).2⟩
    · unfold items at h
      rw [List.append_assoc] at h
      exact absurd h.symm (hopen b _ _)
  · rcases bs with _ | ⟨b, bs⟩
    · unfold items at h
      rw [List.append_assoc] at h
      exact absurd h (hopen a _ _)
    · unfold items at h
      rw [List.append_assoc, List.append_assoc] at h
      obtain ⟨rfl, hrest⟩ := hwrite a List.mem_cons_self b _ _ (hnext as r) (hnext bs r') h
      obtain ⟨rfl, hr⟩ := more_inj (fun b hb => hwrite b (List.mem_cons_of_mem a hb)) hclose hstop hrest
      exact ⟨rfl, hr⟩

end Lists

/-! ## Objects -/

inductive Value
  | text (s : Text)
  | int (n : Int)
  | texts (ss : List Text)
deriving DecidableEq

def Value.write : Value → Text
  | .text s => quote s
  | .int n => intText n
  | .texts ss => '[' :: (items quote ss ++ [']'])

abbrev Object := List (Text × Value)

def writeField (f : Text × Value) : Text := quote f.1 ++ ':' :: f.2.write

def Object.write (o : Object) : Text := '\x7b' :: (items writeField o ++ ['\x7d'])

theorem quote_selfDelimiting (stop : Text → Prop) : SelfDelimiting stop quote :=
  fun _ _ _ _ _ _ h => quote_inj h

theorem texts_inj {ss ts : List Text} {r r' : Text}
    (h : '[' :: (items quote ss ++ [']']) ++ r = '[' :: (items quote ts ++ [']']) ++ r') : ss = ts ∧ r = r' := by
  rw [List.cons_append, List.cons_append, List.append_assoc, List.append_assoc] at h
  refine items_inj (fun s _ => quote_selfDelimiting (fun _ => True) s) (by decide)
    (fun _ => ⟨trivial, trivial⟩) ?_ (List.cons.inj h).2
  intro s r r' heq
  have hhead : quoteMark = ']' := (List.cons.inj heq).1
  revert hhead
  decide

theorem value_selfDelimiting : SelfDelimiting Stops Value.write := by
  have hint : ∀ (n : Int) (c : Char) (r r' : Text), (c = quoteMark ∨ c = '[') → intText n ++ r ≠ c :: r' := by
    intro n c r r' hc heq
    obtain ⟨d, rest, hdigits, hd⟩ := head_intText n
    rw [hdigits, List.cons_append] at heq
    obtain ⟨rfl, -⟩ := List.cons.inj heq
    rcases hc with rfl | rfl
    · revert hd
      decide
    · revert hd
      decide
  have hbracket : quoteMark ≠ '[' := by decide
  intro a b r r' hr hr' h
  cases a with
  | text s =>
      cases b with
      | text t =>
          obtain ⟨rfl, hrest⟩ := quote_inj h
          exact ⟨rfl, hrest⟩
      | int n => exact absurd h.symm (hint n _ _ _ (.inl rfl))
      | texts ts => exact absurd (List.cons.inj h).1 hbracket
  | int m =>
      cases b with
      | text t => exact absurd h (hint m _ _ _ (.inl rfl))
      | int n =>
          obtain ⟨rfl, hrest⟩ := intText_inj hr hr' h
          exact ⟨rfl, hrest⟩
      | texts ts => exact absurd h (hint m _ _ _ (.inr rfl))
  | texts ss =>
      cases b with
      | text t => exact absurd (List.cons.inj h).1.symm hbracket
      | int n => exact absurd h.symm (hint n _ _ _ (.inr rfl))
      | texts ts =>
          obtain ⟨rfl, hrest⟩ := texts_inj h
          exact ⟨rfl, hrest⟩

theorem field_selfDelimiting : SelfDelimiting Stops writeField := by
  rintro ⟨k, v⟩ ⟨k', v'⟩ r r' hr hr' h
  unfold writeField at h
  rw [List.append_assoc, List.append_assoc] at h
  obtain ⟨hkey, hrest⟩ := quote_inj h
  obtain ⟨hvalue, hr⟩ := value_selfDelimiting v v' r r' hr hr' (List.cons.inj hrest).2
  dsimp only at hkey hvalue
  rw [hkey, hvalue]
  exact ⟨rfl, hr⟩

/-- Two objects that are written alike are equal. -/
theorem Object.write_injective : Function.Injective Object.write := by
  intro o o' h
  have hstops : ∀ r : Text, Stops (',' :: r) ∧ Stops ('\x7d' :: r) := by
    intro r
    constructor
    · rintro c ⟨⟩
      rfl
    · rintro c ⟨⟩
      rfl
  refine (items_inj (fun f _ => field_selfDelimiting f) (by decide) hstops ?_ (List.cons.inj h).2).1
  intro f r r' heq
  have hhead : quoteMark = '\x7d' := (List.cons.inj heq).1
  revert hhead
  decide

/-! ## Blanks -/

/-- A blank after every comma and colon that is not inside quotes. -/
def spacedFrom (quoted escaped : Bool) : Text → Text
  | [] => []
  | c :: rest =>
      if quoted then
        c :: (if escaped then spacedFrom true false rest
          else if c = backslash then spacedFrom true true rest
          else if c = quoteMark then spacedFrom false escaped rest
          else spacedFrom true escaped rest)
      else if c = quoteMark then c :: spacedFrom true escaped rest
      else if c = ',' ∨ c = ':' then c :: ' ' :: spacedFrom quoted escaped rest
      else c :: spacedFrom quoted escaped rest

def spaced (s : Text) : Text := spacedFrom false false s

theorem spacedFrom_injective (quoted escaped : Bool) : Function.Injective (spacedFrom quoted escaped) := by
  intro s
  induction s generalizing quoted escaped with
  | nil =>
      intro t h
      rcases t with _ | ⟨c, t⟩
      · rfl
      · unfold spacedFrom at h
        split at h
        · cases h
        · split at h
          · cases h
          · split at h
            · cases h
            · cases h
  | cons c s ih =>
      intro t h
      have hcons : ∀ d u, ∃ rest, spacedFrom quoted escaped (d :: u) = d :: rest := by
        intro d u
        unfold spacedFrom
        split
        · exact ⟨_, rfl⟩
        · split
          · exact ⟨_, rfl⟩
          · split
            · exact ⟨_, rfl⟩
            · exact ⟨_, rfl⟩
      rcases t with _ | ⟨d, t⟩
      · obtain ⟨rest, hrest⟩ := hcons c s
        rw [hrest] at h
        cases h
      · obtain ⟨rest, hrest⟩ := hcons c s
        obtain ⟨rest', hrest'⟩ := hcons d t
        have hhead : c = d := by
          rw [hrest, hrest'] at h
          exact (List.cons.inj h).1
        subst hhead
        congr 1
        unfold spacedFrom at h
        split at h
        · split at h
          · exact ih _ _ (List.cons.inj h).2
          · split at h
            · exact ih _ _ (List.cons.inj h).2
            · split at h
              · exact ih _ _ (List.cons.inj h).2
              · exact ih _ _ (List.cons.inj h).2
        · split at h
          · exact ih _ _ (List.cons.inj h).2
          · split at h
            · exact ih _ _ (List.cons.inj (List.cons.inj h).2).2
            · exact ih _ _ (List.cons.inj h).2

end Json
