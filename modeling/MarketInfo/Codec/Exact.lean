import MarketInfo.Codec.Canonical

/-! # Exact writers

A writer is exact when the bytes it appends and what it pays are known in advance.
The rules below follow the columns that book payloads are made of.
-/

namespace MarketInfo.Codec

open Wire (bigEndian signedBytes Sink Writes Emits Writing)

/-- The writer appends `body` and pays `spent`: whenever they fit, and never
anything else. -/
structure Exact (w : Writing) (body : List UInt8) (spent : Nat) : Prop where
  writes : Writes maxBytes w body spent
  emits : Emits w fun b k => b = body ∧ k = spent

theorem exact_scalar {t : Ty} {v : Value} {body : List UInt8} (hnull : v ≠ .null)
    (hplain : v.indirect = v)
    (hwrite : ∀ s, writeValue t v s =
      if maxBytes < s.out.length then .error "value exceeds byte limit"
      else match v.indirect with
        | .null => .error ("NULL for " ++ t.name)
        | v => s.write <$> scalarBytes t v)
    (hbody : scalarBytes t v = .ok body) : Exact (writeValue t v) body 0 := by
  refine ⟨writes_scalar hnull hplain hwrite hbody, ?_⟩
  intro s s' h
  rw [hwrite, hplain] at h
  split at h
  · cases h
  · split at h
    · cases h
    · rw [hbody] at h
      obtain rfl := Except.ok.inj h
      exact ⟨body, 0, rfl, rfl, rfl, rfl⟩

theorem exact_int64 (n : Int64) : Exact (writeValue .int64 (.int64 n)) (signedBytes 8 n.toInt) 0 :=
  exact_scalar nofun rfl (fun _ => rfl) rfl

theorem exact_uint64 (n : UInt64) :
    Exact (writeValue (.uint .eight) (.uint64 n)) (bigEndian 8 n.toNat) 0 :=
  exact_scalar nofun rfl (fun _ => rfl) rfl

theorem exact_uint32 (n : UInt32) :
    Exact (writeValue (.uint .four) (.uint32 n)) (bigEndian 4 n.toNat) 0 := by
  refine exact_scalar nofun rfl (fun _ => rfl) ?_
  have hlt := n.toNat_lt
  show (if _ then _ else _) = _
  rw [if_neg]
  · simp [Width.size]
  · simp [Width.size]
    omega

theorem exact_uint8 (n : UInt8) : Exact (writeValue (.uint .one) (.uint8 n)) (bigEndian 1 n.toNat) 0 := by
  refine exact_scalar nofun rfl (fun _ => rfl) ?_
  have hlt := n.toNat_lt
  show (if _ then _ else _) = _
  rw [if_neg]
  · simp [Width.size]
  · simp [Width.size]
    omega

theorem exact_nil (w : Writing) (h : ∀ s, w s = .ok s) : Exact w [] 0 := by
  constructor
  · intro s _ _
    rw [h, List.append_nil]
    rfl
  · intro s s' hs
    rw [h] at hs
    obtain rfl := Except.ok.inj hs
    exact ⟨[], 0, (List.append_nil _).symm, rfl, rfl, rfl⟩

theorem exact_all {child : Ty} {α : Type} {value : α → Value} {body : α → List UInt8} {spent : α → Nat}
    (xs : List α) (h : ∀ x ∈ xs, Exact (writeValue child (value x)) (body x) (spent x)) :
    ∀ i, Exact (writeAll (writeValue child) i (xs.map value)) (xs.flatMap body) (xs.map spent).sum := by
  induction xs with
  | nil => exact fun i => exact_nil _ fun _ => rfl
  | cons x xs ih =>
      intro i
      have hfirst := h x List.mem_cons_self
      have hrest := ih (fun y hy => h y (List.mem_cons_of_mem _ hy)) (i + 1)
      simp only [List.flatMap_cons, List.map_cons, List.sum_cons]
      constructor
      · intro s hfits hspent
        rw [List.length_append] at hfits
        have hnext := hrest.writes ⟨s.out ++ body x, s.budget - spent x⟩ (by
          rw [List.length_append]
          omega) (by
          show _ ≤ s.budget - spent x
          omega)
        rw [writeAll, hfirst.writes s (by omega) (by omega)]
        rw [List.append_assoc, Nat.sub_sub] at hnext
        exact hnext
      · intro s s' hs
        rw [writeAll, Check.andThen_eq_ok] at hs
        obtain ⟨s₁, hs₁, hs⟩ := hs
        rw [Check.wrap_eq_ok] at hs₁
        obtain ⟨b, k, hout, hbudget, rfl, rfl⟩ := hfirst.emits s s₁ hs₁
        obtain ⟨bs, ks, houts, hbudgets, rfl, rfl⟩ := hrest.emits s₁ s' hs
        refine ⟨_, _, ?_, by omega, rfl, rfl⟩
        rw [houts, hout, List.append_assoc]

/-- An array of rows. -/
theorem exact_array {child : Ty} {α : Type} {value : α → Value} {body : α → List UInt8}
    {spent : α → Nat} (xs : List α)
    (h : ∀ x ∈ xs, Exact (writeValue child (value x)) (body x) (spent x)) :
    Exact (writeValue (.array child) (.list (xs.map value)))
      (bigEndian 4 xs.length ++ xs.flatMap body) (xs.length + (xs.map spent).sum) := by
  have hall := exact_all xs h 0
  constructor
  · intro s hfits hspent
    rw [List.length_append, Wire.length_bigEndian] at hfits
    unfold writeValue
    rw [if_neg (by omega)]
    simp only [Value.indirect, Value.elems?]
    rw [if_neg (by rw [List.length_map]; omega)]
    rw [hall.writes _ (by
      rw [List.length_append, Wire.length_bigEndian]
      omega) (by
      show _ ≤ s.budget - _
      rw [List.length_map]
      omega)]
    simp only [List.length_map]
    rw [List.append_assoc, Nat.sub_sub]
  · intro s s' hs
    unfold writeValue at hs
    split at hs
    · cases hs
    · simp only [Value.indirect, Value.elems?] at hs
      split at hs
      · cases hs
      · rename_i hfits
        rw [List.length_map] at hfits hs
        obtain ⟨b, k, hout, hbudget, rfl, rfl⟩ := hall.emits _ _ hs
        refine ⟨_, _, ?_, ?_, rfl, rfl⟩
        · rw [hout]
          exact List.append_assoc _ _ _
        · change s.budget - xs.length = s'.budget + _ at hbudget
          omega

theorem exact_cons {name : List UInt8} {child : Ty} {rest : Fields} {v f : Value}
    {body bodies : List UInt8} {spent spents : Nat} (hmember : v.member name = .ok f)
    (hfirst : Exact (writeValue child f) body spent) (hrest : Exact (writeFields rest v) bodies spents) :
    Exact (writeFields (.cons name child rest) v) (body ++ bodies) (spent + spents) := by
  constructor
  · intro s hfits hspent
    rw [List.length_append] at hfits
    have hnext := hrest.writes ⟨s.out ++ body, s.budget - spent⟩ (by
      rw [List.length_append]
      omega) (by
      show _ ≤ s.budget - spent
      omega)
    unfold writeFields
    rw [hmember]
    show Check.wrap (nameText name) (writeValue child f s) >>= writeFields rest v = _
    rw [hfirst.writes s (by omega) (by omega)]
    rw [List.append_assoc, Nat.sub_sub] at hnext
    exact hnext
  · intro s s' hs
    unfold writeFields at hs
    rw [hmember] at hs
    simp only [Check.andThen_eq_ok, Check.wrap_eq_ok] at hs
    obtain ⟨_, hf, s₁, hs₁, hs⟩ := hs
    obtain rfl := Except.ok.inj hf
    obtain ⟨b, k, hout, hbudget, rfl, rfl⟩ := hfirst.emits s s₁ hs₁
    obtain ⟨bs, ks, houts, hbudgets, rfl, rfl⟩ := hrest.emits s₁ s' hs
    refine ⟨_, _, ?_, by omega, rfl, rfl⟩
    rw [houts, hout, List.append_assoc]

/-- The last field of a tuple. -/
theorem exact_last {name : List UInt8} {child : Ty} {v f : Value} {body : List UInt8} {spent : Nat}
    (hmember : v.member name = .ok f) (hfirst : Exact (writeValue child f) body spent) :
    Exact (writeFields (.cons name child .nil) v) body spent := by
  have hcons := exact_cons hmember hfirst (exact_nil (writeFields .nil v) fun _ => rfl)
  rwa [List.append_nil, Nat.add_zero] at hcons

theorem exact_tuple {fields : Fields} {entries : List (List UInt8 × Value)} {body : List UInt8}
    {spent : Nat} (h : Exact (writeFields fields (.dict entries)) body spent) :
    Exact (writeValue (.tuple fields) (.dict entries)) body spent := by
  constructor
  · intro s hfits hspent
    unfold writeValue
    rw [if_neg (by omega)]
    exact h.writes s hfits hspent
  · intro s s' hs
    unfold writeValue at hs
    split at hs
    · cases hs
    · exact h.emits s s' hs

/-- What an exact column is encoded as. -/
theorem Exact.encode {t : Ty} {tag : Vector UInt8 16} {v : Value} {limit : Nat} {body p : List UInt8}
    {spent : Nat} (h : Exact (writeValue t v) body spent) :
    encodeWith t tag v limit = .ok p ↔
      spent ≤ limit ∧ 17 + body.length ≤ maxBytes ∧ p = 1 :: tag.toList ++ body := by
  have htag : (1 :: tag.toList).length = 17 := by simp
  unfold encodeWith
  simp only [Check.andThen_eq_ok, Check.failIf_eq_ok, not_lt]
  constructor
  · rintro ⟨s, hs, -, hlimit, hp⟩
    obtain rfl := Except.ok.inj hp
    obtain ⟨b, k, hout, hbudget, rfl, rfl⟩ := h.emits _ _ hs
    change limit = s.budget + k at hbudget
    refine ⟨by omega, ?_, hout⟩
    rw [hout, List.length_append, htag] at hlimit
    exact hlimit
  · rintro ⟨hspent, hlimit, rfl⟩
    refine ⟨_, h.writes _ (by rw [htag]; exact hlimit) hspent, (), ?_, rfl⟩
    rw [List.length_append, htag]
    exact hlimit

end MarketInfo.Codec
