import MarketInfo.Codec.Laws

/-! # Normal forms

A value and its normal form are written alike, where the instants of the value are in the years
1970 to 9999 of UTC too.
-/

namespace MarketInfo.Codec

open Wire (Sink Reads Accepts)

/-- Every instant is in the years 1970 to 9999 of UTC. -/
def UtcInRange (times : List Time) : Prop := ∀ τ ∈ times, τ.utc.YearInRange

theorem no_offset_le (_ : Int) : -2 ^ 31 ≤ (0 : Int) ∧ (0 : Int) < 2 ^ 31 := by norm_num

/-- A process in UTC. -/
def greenwich : Zone := ⟨fun _ => 0, no_offset_le⟩

theorem greenwich_shows (times : List Time) : greenwich.Shows times ↔ UtcInRange times := by
  unfold Zone.Shows UtcInRange
  refine forall₂_congr fun τ _ => ?_
  unfold Zone.local greenwich Time.YearInRange
  rw [Time.utc_unix, Time.utc_offset]
  rfl

theorem UtcInRange.of_append {times times' : List Time} (h : UtcInRange (times ++ times')) :
    UtcInRange times ∧ UtcInRange times' :=
  ⟨fun τ hτ => h τ (List.mem_append_left _ hτ), fun τ hτ => h τ (List.mem_append_right _ hτ)⟩

/-! ## Shapes of normal forms -/

theorem normalScalar_plain (t : Ty) {v : Value} (hplain : v.indirect = v) (hnull : v ≠ .null) :
    (normalScalar t v).indirect = normalScalar t v ∧ normalScalar t v ≠ .null := by
  fun_cases normalScalar t v
  case case1 width => cases width <;> exact ⟨rfl, nofun⟩
  all_goals first | exact ⟨hplain, hnull⟩ | simp [Value.indirect]

/-- What is not a null has a normal form that is none, and no reference. -/
theorem normalize_plain : ∀ (t : Ty) {v : Value}, v.indirect ≠ .null →
    (normalize t v).indirect = normalize t v ∧ normalize t v ≠ .null
  | .nullable child, v, h => by
      rw [normalize_nullable h]
      exact normalize_plain child (by rwa [Value.indirect_indirect])
  | .lowCardinality child, v, h => by
      unfold normalize
      exact normalize_plain child (by rwa [Value.indirect_indirect])
  | .array _, _, _ | .tuple _, _, _ => by
      unfold normalize
      exact ⟨rfl, nofun⟩
  | .uint _, v, h | .int32, v, h | .int64, v, h | .uint256, v, h | .uuid, v, h | .bool, v, h
  | .string, v, h | .fixedString _, v, h | .decimal, v, h | .dateTime _, v, h | .enum8 _, v, h => by
      unfold normalize
      exact normalScalar_plain _ (Value.indirect_indirect v) h

/-! ## Scalars -/

theorem rewritten_of_reads {t : Ty} {w : Value} {body : List UInt8}
    (haccepts : Accepts (readScalar greenwich t) (Rewritten t)) (hreads : Reads (readScalar greenwich t) body 0 w) :
    scalarBytes t w = .ok body := by
  obtain ⟨body', spent, hbody, -, hrewritten⟩ := haccepts _ _ _ (hreads [] 0 (le_refl 0))
  have hsame : body = body' := by simpa using hbody
  rw [hsame]
  exact hrewritten.2.2.2.2

theorem scalar_normal {t : Ty} {v : Value} {body : List UInt8} (h : scalarBytes t v = .ok body)
    (hutc : UtcInRange (timestamps t v)) : scalarBytes t (normalScalar t v) = .ok body := by
  have hreads := scalar_reads greenwich h ((greenwich_shows _).2 hutc)
  cases t with
  | bool => exact rewritten_of_reads rewritten_bool hreads
  | uint width => exact rewritten_of_reads (rewritten_uint width) hreads
  | int32 => exact rewritten_of_reads rewritten_int32 hreads
  | int64 => exact rewritten_of_reads rewritten_int64 hreads
  | uint256 => exact rewritten_of_reads rewritten_uint256 hreads
  | decimal => exact rewritten_of_reads rewritten_decimal hreads
  | uuid => exact rewritten_of_reads rewritten_uuid hreads
  | enum8 enums => exact rewritten_of_reads (rewritten_enum8 enums) hreads
  | dateTime scale =>
      -- the checks look at the instant, and at the year
      simp only [scalarBytes] at h
      split at h
      · rename_i τ
        have hyear : τ.utc.YearInRange := hutc τ (by simp [timestamps, Value.indirect])
        simp only [Check.andThen_eq_ok, Check.failIf_eq_ok] at h
        obtain ⟨-, hzero, -, hunit, -, -, hbody⟩ := h
        simp only [normalScalar, scalarBytes, Check.andThen_eq_ok, Check.failIf_eq_ok]
        exact ⟨(), hzero, (), hunit, (), not_not.2 hyear, hbody⟩
      · cases h
  | _ => cases h

/-! ## Values of every type -/

/-- A type whose normal forms are written as their values are. -/
def Renews (t : Ty) : Prop :=
  ∀ (v : Value) (s s' : Sink), writeValue t v s = .ok s' → UtcInRange (timestamps t v) →
    writeValue t (normalize t v) s = .ok s'

theorem renews_scalar {t : Ty}
    (hwrite : ∀ v s, writeValue t v s =
      if maxBytes < s.out.length then .error "value exceeds byte limit"
      else match v.indirect with
        | .null => .error ("NULL for " ++ t.name)
        | v => s.write <$> scalarBytes t v)
    (hnormal : ∀ v, normalize t v = normalScalar t v.indirect) : Renews t := by
  intro v s s' h hutc
  rw [hwrite] at h ⊢
  split at h
  · cases h
  · rename_i hlimit
    split at h
    · cases h
    · rename_i hnull
      obtain ⟨body, hbody, rfl⟩ := map_eq_ok h
      have hplain := normalScalar_plain t (Value.indirect_indirect v) hnull
      rw [if_neg hlimit, hnormal, hplain.1]
      split
      · rename_i hnone
        exact absurd hnone hplain.2
      · rw [← timestamps_indirect] at hutc
        rw [scalar_normal hbody hutc]
        rfl

theorem renews_text {t : Ty} (hwrite : ∀ v s, writeValue t v s =
      if maxBytes < s.out.length then .error "value exceeds byte limit"
      else match v.indirect with
        | .null => .error ("NULL for " ++ t.name)
        | v => match v.text? with
            | none => .error "expected bytes or string"
            | some a => writeText t a s)
    (hnormal : ∀ v, normalize t v = .string (v.indirect.text?.getD [])) : Renews t := by
  intro v s s' h _
  rw [hwrite] at h ⊢
  split at h
  · cases h
  · rename_i hlimit
    split at h
    · cases h
    · split at h
      · cases h
      · rename_i a ha
        rw [if_neg hlimit, hnormal, ha]
        exact h

theorem renews_all {child : Ty} (hchild : Renews child) (elems : List Value) :
    ∀ (i : Nat) (s s' : Sink), writeAll (writeValue child) i elems s = .ok s' →
      UtcInRange (elems.flatMap (timestamps child)) →
        writeAll (writeValue child) i (elems.map (normalize child)) s = .ok s' := by
  induction elems with
  | nil => exact fun i s s' h _ => h
  | cons v elems ih =>
      intro i s s' h hutc
      rw [List.flatMap_cons] at hutc
      simp only [List.map_cons, writeAll, Check.andThen_eq_ok, Check.wrap_eq_ok] at h ⊢
      obtain ⟨s₁, hfirst, hrest⟩ := h
      exact ⟨s₁, hchild v s s₁ hfirst hutc.of_append.1, ih _ _ _ hrest hutc.of_append.2⟩

theorem renews_nullable {child : Ty} (hchild : Renews child) : Renews (.nullable child) := by
  intro v s s' h hutc
  rcases Classical.em (v.indirect = .null) with hnull | hvalue
  · have hnormal : normalize (.nullable child) v = .null := by
      unfold normalize
      rw [hnull]
    unfold writeValue at h ⊢
    rw [hnull] at h
    rw [hnormal]
    exact h
  · rw [timestamps_nullable hvalue] at hutc
    rw [normalize_nullable hvalue]
    have hplain := normalize_plain child (v := v.indirect) (by rwa [Value.indirect_indirect])
    unfold writeValue at h ⊢
    split at h
    · cases h
    · rename_i hlimit
      rw [if_neg hlimit, hplain.1]
      split at h
      · rename_i hnull
        exact absurd hnull hvalue
      · have hwritten := hchild _ _ _ h hutc
        split
        · rename_i hnull
          exact absurd hnull hplain.2
        · exact hwritten

theorem renews_lowCardinality {child : Ty} (hchild : Renews child) : Renews (.lowCardinality child) := by
  intro v s s' h hutc
  unfold writeValue at h ⊢
  split at h
  · cases h
  · rename_i hlimit
    split at h
    · cases h
    · rename_i hvalue
      have hplain := normalize_plain child (v := v.indirect) (by rwa [Value.indirect_indirect])
      have hnormal : normalize (.lowCardinality child) v = normalize child v.indirect := by
        conv_lhs => unfold normalize
      rw [timestamps] at hutc
      have hwritten := hchild _ _ _ h hutc
      rw [if_neg hlimit, hnormal, hplain.1]
      split
      · rename_i hnull
        exact absurd hnull hplain.2
      · exact hwritten

theorem renews_array {child : Ty} (hchild : Renews child) : Renews (.array child) := by
  intro v s s' h hutc
  unfold writeValue at h ⊢
  split at h
  · cases h
  · rename_i hlimit
    split at h
    · cases h
    · split at h
      · cases h
      · rename_i elems helems
        split at h
        · cases h
        · rename_i hbudget
          rw [timestamps, helems, Option.getD_some] at hutc
          have hwritten := renews_all hchild elems 0 _ _ h hutc
          have hnormal : normalize (.array child) v = .list (elems.map (normalize child)) := by
            rw [normalize, helems, Option.getD_some]
          rw [if_neg hlimit, hnormal]
          simp only [Value.indirect, Value.elems?, List.length_map, if_neg hbudget]
          exact hwritten

mutual

/-- The induction over types. -/
theorem renews : ∀ t : Ty, t.WellFormed → Renews t
  | .nullable child, h => renews_nullable (renews child (by simpa only [Ty.WellFormed] using h))
  | .lowCardinality child, h => by
      obtain rfl : child = .string := h
      exact renews_lowCardinality (renews_text (fun _ _ => rfl) fun _ => rfl)
  | .array child, h => renews_array (renews child (by simpa only [Ty.WellFormed] using h))
  | .tuple fields, h => by
      intro v s s' hwrite hutc
      have hnames : ((normalizeFields fields v.indirect).map Prod.fst).Nodup := by
        rw [names_normalizeFields]
        exact Fields.WellFormed.nodup h
      unfold writeValue at hwrite ⊢
      split at hwrite
      · cases hwrite
      · rename_i hlimit
        rw [if_neg hlimit]
        split at hwrite
        · cases hwrite
        · rw [timestamps] at hutc
          exact renewsFields fields h _ _ _ _ hwrite hutc (member_dict hnames)
  | .string, _ => renews_text (fun _ _ => rfl) fun _ => rfl
  | .fixedString _, _ => renews_text (fun _ _ => rfl) fun _ => rfl
  | .uint _, _ | .int32, _ | .int64, _ | .uint256, _ | .uuid, _ | .bool, _ | .decimal, _
  | .dateTime _, _ | .enum8 _, _ => renews_scalar (fun _ _ => rfl) fun _ => rfl

/-- The fields of a tuple are taken from whatever has their normal forms as its members. -/
theorem renewsFields : ∀ fields : Fields, fields.WellFormed → ∀ (v w : Value) (s s' : Sink),
    writeFields fields v s = .ok s' → UtcInRange (timestampsFields fields v) →
      (∀ e ∈ normalizeFields fields v, w.member e.1 = .ok e.2) → writeFields fields w s = .ok s'
  | .nil, _, _, _, _, _, h, _, _ => h
  | .cons name child rest, hformed, v, w, s, s', h, hutc, hmember => by
      unfold writeFields at h ⊢
      simp only [Check.andThen_eq_ok, Check.wrap_eq_ok] at h ⊢
      obtain ⟨f, hf, s₁, hfirst, hrest⟩ := h
      rw [timestampsFields, hf] at hutc
      rw [normalizeFields, hf] at hmember
      have hothers := renewsFields rest hformed.2.2 v w s₁ s' hrest hutc.of_append.2 fun e he =>
        hmember e (List.mem_cons_of_mem _ he)
      exact ⟨normalize child f, hmember _ List.mem_cons_self, s₁,
        renews child hformed.2.1 f s s₁ hfirst hutc.of_append.1, hothers⟩

end

/-- What a value is encoded as, its normal form is too. -/
theorem encode_normalize {t : Ty × Vector UInt8 16} (hformed : t.1.WellFormed) {v : Value} {data : List UInt8}
    (hencode : Encode t v = .ok data) (hutc : UtcInRange (timestamps t.1 v)) :
    Encode t (normalize t.1 v) = .ok data := by
  obtain ⟨s, hwrite, hlimit, hdata⟩ := encode_eq_ok.1 hencode
  exact encode_eq_ok.2 ⟨s, renews t.1 hformed v _ _ hwrite hutc, hlimit, hdata⟩

/-- A normal form that is encoded has its instants in range. -/
theorem utcInRange_of_encode {t : Ty × Vector UInt8 16} (hformed : t.1.WellFormed) {v : Value} {data : List UInt8}
    (hencode : Encode t (normalize t.1 v) = .ok data) : UtcInRange (timestamps t.1 v) := by
  obtain ⟨s, hwrite, -, -⟩ := encode_eq_ok.1 hencode
  obtain ⟨-, -, -, -, -, hrange, -⟩ := @writeValue_emits greenwich t.1 _ _ _ hwrite
  intro τ hτ
  refine hrange τ.utc ?_
  rw [timestamps_normalize t.1 hformed]
  exact List.mem_map_of_mem hτ

end MarketInfo.Codec
