import Mathlib

/-! # Encodings that say where they end

The bytes of a value, followed by anything, are those of no other value. Encodings are put
together from such pieces one after another, behind marks, and as lists with their length in
front. An encoding may refuse a value, and two values may count as one.
-/

namespace Framing

variable {α β ω : Type*}

structure Exact (same : α → α → Prop) (enc : α → Option (List ω)) : Prop where
  frames : ∀ a b x y r r', enc a = some x → enc b = some y → x ++ r = y ++ r' → same a b ∧ r = r'
  agrees : ∀ a b, same a b → enc a = enc b

variable {same : α → α → Prop} {enc : α → Option (List ω)}

/-- Two encodings are equal exactly where the values count as one. -/
theorem Exact.eq_iff (h : Exact same enc) {a b : α} {x y : List ω} (hx : enc a = some x) (hy : enc b = some y) :
    x = y ↔ same a b := by
  constructor
  · intro heq
    exact (h.frames a b x y [] [] hx hy (by rw [heq])).1
  · intro hsame
    exact Option.some.inj (hx.symm.trans ((h.agrees a b hsame).trans hy))

theorem Exact.mark (h : Exact same enc) (mark : List ω) : Exact same fun a => (enc a).map (mark ++ ·) where
  frames := by
    intro a b x y r r' hx hy heq
    obtain ⟨x, hu, rfl⟩ := Option.map_eq_some_iff.1 hx
    obtain ⟨y, hv, rfl⟩ := Option.map_eq_some_iff.1 hy
    rw [List.append_assoc, List.append_assoc] at heq
    exact h.frames a b x y r r' hu hv (List.append_cancel_left heq)
  agrees := by
    intro a b hsame
    rw [h.agrees a b hsame]

/-- One encoding behind another. -/
def pair (first : α → Option (List ω)) (second : β → Option (List ω)) (p : α × β) : Option (List ω) :=
  (first p.1).bind fun x => (second p.2).map (x ++ ·)

theorem Exact.pair (h : Exact same enc) {same' : β → β → Prop} {enc' : β → Option (List ω)} (h' :
    Exact same' enc') :
    Exact (fun p q : α × β => same p.1 q.1 ∧ same' p.2 q.2) (Framing.pair enc enc') where
  frames := by
    rintro ⟨a, b⟩ ⟨a', b'⟩ x y r r' hx hy heq
    obtain ⟨x, hu, hx⟩ := Option.bind_eq_some_iff.1 hx
    obtain ⟨x', hu', rfl⟩ := Option.map_eq_some_iff.1 hx
    obtain ⟨y, hv, hy⟩ := Option.bind_eq_some_iff.1 hy
    obtain ⟨y', hv', rfl⟩ := Option.map_eq_some_iff.1 hy
    rw [List.append_assoc, List.append_assoc] at heq
    obtain ⟨hsame, hrest⟩ := h.frames a a' x y _ _ hu hv heq
    obtain ⟨hsame', hrest'⟩ := h'.frames b b' x' y' r r' hu' hv' hrest
    exact ⟨⟨hsame, hsame'⟩, hrest'⟩
  agrees := by
    rintro ⟨a, b⟩ ⟨a', b'⟩ ⟨hsame, hsame'⟩
    unfold Framing.pair
    rw [h.agrees a a' hsame, h'.agrees b b' hsame']

/-- What may be absent, behind one of two marks. -/
def optional (absent present : List ω) (enc : α → Option (List ω)) : Option α → Option (List ω)
  | none => some absent
  | some a => (enc a).map (present ++ ·)

/-- Neither of two marks begins like the other. -/
def Apart (x y : List ω) : Prop := ∀ r r', x ++ r ≠ y ++ r'

theorem Exact.optional (h : Exact same enc) {absent present : List ω} (hapart : Apart absent present) :
    Exact (Option.Rel same) (Framing.optional absent present enc) where
  frames := by
    intro a b x y r r' hx hy heq
    rcases a with _ | a
    · obtain rfl := Option.some.inj hx
      rcases b with _ | b
      · obtain rfl := Option.some.inj hy
        exact ⟨.none, List.append_cancel_left heq⟩
      · obtain ⟨y, hv, rfl⟩ := Option.map_eq_some_iff.1 hy
        rw [List.append_assoc] at heq
        exact absurd heq (hapart _ _)
    · obtain ⟨x, hu, rfl⟩ := Option.map_eq_some_iff.1 hx
      rw [List.append_assoc] at heq
      rcases b with _ | b
      · obtain rfl := Option.some.inj hy
        exact absurd heq.symm (hapart _ _)
      · obtain ⟨y, hv, rfl⟩ := Option.map_eq_some_iff.1 hy
        rw [List.append_assoc] at heq
        obtain ⟨hsame, hrest⟩ := h.frames a b x y r r' hu hv (List.append_cancel_left heq)
        exact ⟨.some hsame, hrest⟩
  agrees := by
    intro a b hsame
    cases hsame with
    | none => rfl
    | some hsame => exact congrArg (Option.map (present ++ ·)) (h.agrees _ _ hsame)

/-- Items one after another. -/
def items (enc : α → Option (List ω)) : List α → Option (List ω)
  | [] => some []
  | a :: as => (enc a).bind fun x => (items enc as).map (x ++ ·)

theorem frames_items (h : Exact same enc) {as bs : List α} (hlen : as.length = bs.length) {x y r r' : List ω}
    (hx : items enc as = some x) (hy : items enc bs = some y) (heq : x ++ r = y ++ r') :
    List.Forall₂ same as bs ∧ r = r' := by
  induction as generalizing bs x y with
  | nil =>
      obtain rfl := List.length_eq_zero_iff.1 hlen.symm
      obtain rfl := Option.some.inj hx
      obtain rfl := Option.some.inj hy
      exact ⟨.nil, heq⟩
  | cons a as ih =>
      rcases bs with _ | ⟨b, bs⟩
      · cases hlen
      · obtain ⟨x, hu, hx⟩ := Option.bind_eq_some_iff.1 hx
        obtain ⟨x', hu', rfl⟩ := Option.map_eq_some_iff.1 hx
        obtain ⟨y, hv, hy⟩ := Option.bind_eq_some_iff.1 hy
        obtain ⟨y', hv', rfl⟩ := Option.map_eq_some_iff.1 hy
        rw [List.append_assoc, List.append_assoc] at heq
        obtain ⟨hsame, hrest⟩ := h.frames a b x y _ _ hu hv heq
        obtain ⟨hall, hrest'⟩ := ih (Nat.succ.inj hlen) hu' hv' hrest
        exact ⟨.cons hsame hall, hrest'⟩

theorem agrees_items (h : Exact same enc) {as bs : List α} (hall : List.Forall₂ same as bs) :
    items enc as = items enc bs := by
  induction hall with
  | nil => rfl
  | cons hsame _ ih =>
      unfold items
      rw [h.agrees _ _ hsame, ih]

/-- A list with its length in front. -/
def counted (count : Nat → Option (List ω)) (enc : α → Option (List ω)) (as : List α) : Option (List ω) :=
  (count as.length).bind fun x => (items enc as).map (x ++ ·)

theorem Exact.counted (h : Exact same enc) {count : Nat → Option (List ω)} (hcount : Exact (· = ·) count) :
    Exact (List.Forall₂ same) (Framing.counted count enc) where
  frames := by
    intro as bs x y r r' hx hy heq
    obtain ⟨x, hu, hx⟩ := Option.bind_eq_some_iff.1 hx
    obtain ⟨x', hu', rfl⟩ := Option.map_eq_some_iff.1 hx
    obtain ⟨y, hv, hy⟩ := Option.bind_eq_some_iff.1 hy
    obtain ⟨y', hv', rfl⟩ := Option.map_eq_some_iff.1 hy
    rw [List.append_assoc, List.append_assoc] at heq
    obtain ⟨hlen, hrest⟩ := hcount.frames _ _ x y _ _ hu hv heq
    exact frames_items h hlen hu' hv' hrest
  agrees := by
    intro as bs hall
    unfold Framing.counted
    rw [hall.length_eq, agrees_items h hall]

/-- An encoding of what a value is read as. -/
theorem Exact.comap (h : Exact same enc) (same' : β → β → Prop) (f : β → α)
    (hsame : ∀ a b, same' a b ↔ same (f a) (f b)) : Exact same' fun b => enc (f b) where
  frames := by
    intro a b x y r r' hx hy heq
    obtain ⟨hab, hrest⟩ := h.frames (f a) (f b) x y r r' hx hy heq
    exact ⟨(hsame a b).2 hab, hrest⟩
  agrees := by
    intro a b hab
    exact h.agrees (f a) (f b) ((hsame a b).1 hab)

/-- An encoding whose bytes have one length. -/
theorem exact_of_length {n : Nat} (hlen : ∀ a x, enc a = some x → x.length = n)
    (hinj : ∀ a b x, enc a = some x → enc b = some x → same a b) (hagrees : ∀ a b, same a b → enc a = enc b) :
    Exact same enc where
  frames := by
    intro a b x y r r' hx hy heq
    obtain ⟨rfl, hrest⟩ := List.append_inj heq ((hlen a x hx).trans (hlen b y hy).symm)
    exact ⟨hinj a b x hx hy, hrest⟩
  agrees := hagrees

theorem exact_nothing : Exact (fun _ _ : Unit => True) fun _ => some ([] : List ω) where
  frames := by
    intro a b x y r r' hx hy heq
    obtain rfl := Option.some.inj hx
    obtain rfl := Option.some.inj hy
    exact ⟨trivial, heq⟩
  agrees := fun _ _ _ => rfl

/-- Bytes with their length in front. -/
def framed (count : Nat → Option (List ω)) (x : List ω) : Option (List ω) := (count x.length).map (· ++ x)

theorem exact_framed {count : Nat → Option (List ω)} (hcount : Exact (· = ·) count) :
    Exact (· = ·) (framed count) where
  frames := by
    intro a b x y r r' hx hy heq
    obtain ⟨n, hu, rfl⟩ := Option.map_eq_some_iff.1 hx
    obtain ⟨k, hv, rfl⟩ := Option.map_eq_some_iff.1 hy
    rw [List.append_assoc, List.append_assoc] at heq
    obtain ⟨hlen, hrest⟩ := hcount.frames _ _ _ _ _ _ hu hv heq
    exact List.append_inj hrest hlen
  agrees := by
    rintro a b rfl
    rfl

end Framing
