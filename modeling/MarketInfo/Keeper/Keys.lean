import MarketInfo.Keeper.Work

/-! # Keys

A slash separates the parts of every key and occurs in none of them, so a key
tells its parts, and the pages of a window are the rows under its key.
-/

namespace MarketInfo.Keeper

open Json (Text)
open Discovery (hexText)

/-! ## Parts without a slash -/

theorem digitChar_ne_slash {n : Nat} (h : n < 16) : Nat.digitChar n ≠ '/' := by
  interval_cases n <;> decide

theorem digitChar_ne_dash {n : Nat} (h : n < 16) : Nat.digitChar n ≠ '-' := by
  interval_cases n <;> decide

theorem mem_hexText {c : Char} {a : List UInt8} (h : c ∈ hexText a) :
    ∃ n, n < 16 ∧ c = Nat.digitChar n := by
  rcases List.mem_flatMap.mp h with ⟨b, -, hb⟩
  have hbyte := b.toNat_lt
  rcases List.mem_cons.mp hb with rfl | hb
  · exact ⟨b.toNat / 16, by omega, rfl⟩
  · exact ⟨b.toNat % 16, by omega, List.mem_singleton.mp hb⟩

theorem slash_hexText (a : List UInt8) : '/' ∉ hexText a := by
  intro h
  rcases mem_hexText h with ⟨n, hn, heq⟩
  exact digitChar_ne_slash hn heq.symm

theorem dash_hexText (a : List UInt8) : '-' ∉ hexText a := by
  intro h
  rcases mem_hexText h with ⟨n, hn, heq⟩
  exact digitChar_ne_dash hn heq.symm

theorem slash_uuid (id : UUID) : '/' ∉ id.text := by
  simp [UUID.text, slash_hexText]

theorem slash_padded (width n : Nat) : '/' ∉ padded width n := by
  intro h
  rcases List.mem_append.mp h with h | h
  · exact absurd (List.eq_of_mem_replicate h) (by decide)
  · have hdigit := Nat.isDigit_of_mem_toDigits (by decide) (by decide) h
    exact absurd hdigit (by decide)

theorem slash_runtimeTime (t : Time) : '/' ∉ runtimeTime t := by
  simp only [runtimeTime, List.mem_append, List.mem_cons, slash_padded, not_or]
  split_ifs <;> simp

theorem slash_kind (kind : EventKind) : '/' ∉ kind.text := by
  cases kind <;> decide

/-! ## Keys tell their parts -/

/-- The last slash of a text splits it in one way. -/
theorem last_slash {a b s t : Text} (hs : '/' ∉ s) (ht : '/' ∉ t)
    (h : a ++ '/' :: s = b ++ '/' :: t) : a = b ∧ s = t := by
  rcases List.append_eq_append_iff.mp h with ⟨c, hb, hc⟩ | ⟨c, ha, hc⟩
  · rcases c with _ | ⟨x, c⟩
    · exact ⟨by simpa using hb.symm, (List.cons.inj hc).2⟩
    · have hx := List.cons.inj hc
      exact absurd (hx.2 ▸ List.mem_append_right c List.mem_cons_self) hs
  · rcases c with _ | ⟨x, c⟩
    · exact ⟨by simpa using ha, (List.cons.inj hc).2.symm⟩
    · have hx := List.cons.inj hc
      exact absurd (hx.2 ▸ List.mem_append_right c List.mem_cons_self) ht

theorem uuid_filter (id : UUID) : id.text.filter (· ≠ '-') = hexText id.bytes := by
  have hkeep : ∀ a : List UInt8, (hexText a).filter (· ≠ '-') = hexText a := fun a =>
    List.filter_eq_self.mpr fun c hc => by
      have hne : c ≠ '-' := fun h => dash_hexText a (h ▸ hc)
      simpa using hne
  have happend : ∀ a b : List UInt8, hexText a ++ hexText b = hexText (a ++ b) := fun a b =>
    (List.flatMap_append).symm
  have hsplit : id.bytes = id.bytes.take 4 ++ ((id.bytes.drop 4).take 2 ++
      ((id.bytes.drop 6).take 2 ++ ((id.bytes.drop 8).take 2 ++ id.bytes.drop 10))) := by
    rcases id with ⟨bytes, size⟩
    have h8 : (bytes.drop 8).take 2 ++ bytes.drop 10 = bytes.drop 8 := by
      simpa [List.drop_drop] using List.take_append_drop 2 (bytes.drop 8)
    have h6 : (bytes.drop 6).take 2 ++ bytes.drop 8 = bytes.drop 6 := by
      simpa [List.drop_drop] using List.take_append_drop 2 (bytes.drop 6)
    have h4 : (bytes.drop 4).take 2 ++ bytes.drop 6 = bytes.drop 4 := by
      simpa [List.drop_drop] using List.take_append_drop 2 (bytes.drop 4)
    simp only [h8, h6, h4, List.take_append_drop]
  have hdash : ∀ l : Text, ('-' :: l).filter (· ≠ '-') = l.filter (· ≠ '-') := fun l => by
    simp
  rw [UUID.text]
  simp only [List.filter_append, hdash, hkeep, happend]
  rw [← hsplit]

theorem uuid_text_injective : Function.Injective UUID.text := by
  intro a b h
  have hbytes : hexText a.bytes = hexText b.bytes := by
    rw [← uuid_filter, ← uuid_filter, h]
  rcases a with ⟨bytes, size⟩
  rcases b with ⟨bytes', size'⟩
  have heq : bytes = bytes' := Discovery.hexText_injective hbytes
  subst heq
  rfl

theorem runtimeParentID_inj {a b : Capture} (h : runtimeParentID a = runtimeParentID b) :
    a.captureId = b.captureId := uuid_text_injective h

/-- A retry key identifies its capture: the id is its last part. -/
theorem runtimeParentOrder_inj {a b : Capture} (h : runtimeParentOrder a = runtimeParentOrder b) :
    a.captureId = b.captureId := by
  have hshape : ∀ c : Capture, runtimeParentOrder c =
      ((if c.captureMode = .live ∨ c.captureMode = .catchup then '0' else '1') ::
        '/' :: (runtimeTime (c.requestedFrom.getD Time.zero) ++
          '/' :: runtimeTime c.captureStartedAt)) ++ '/' :: c.captureId.text := fun c => by
    simp [runtimeParentOrder]
  rw [hshape, hshape] at h
  exact uuid_text_injective (last_slash (slash_uuid _) (slash_uuid _) h).2

theorem runtimePageID_inj {sha256 : Text → Vector UInt8 32} {W W' t t' : Text}
    (h : runtimePageID sha256 W t = runtimePageID sha256 W' t') : W = W' :=
  (last_slash (slash_hexText _) (slash_hexText _) h).1

/-- No window's key is a proper beginning of another's: both have two slashes. -/
theorem window_under {sha256 : Text → Vector UInt8 32} {a b : Capture} {t : Text}
    (ha : runtimeWindowID a ≠ []) (hb : runtimeWindowID b ≠ [])
    (h : (runtimeWindowID a ++ ['/']) <+: runtimePageID sha256 (runtimeWindowID b) t) :
    runtimeWindowID a = runtimeWindowID b := by
  have hcount : ∀ c : Capture, runtimeWindowID c ≠ [] → (runtimeWindowID c).count '/' = 2 := by
    intro c hc
    unfold runtimeWindowID at hc ⊢
    split at hc
    · simp [List.count_append, List.count_eq_zero.mpr (slash_kind _),
        List.count_eq_zero.mpr (slash_runtimeTime _)]
    · exact absurd rfl hc
  rcases h with ⟨rest, hrest⟩
  have hsplit : runtimeWindowID a ++ '/' :: rest = runtimePageID sha256 (runtimeWindowID b) t := by
    rw [← hrest]
    simp
  have hslash : '/' ∉ rest := by
    have hc := congrArg (List.count '/') hsplit
    rw [runtimePageID, List.count_append, List.count_append, List.count_cons_self,
      List.count_cons_self, hcount a ha, hcount b hb,
      List.count_eq_zero.mpr (slash_hexText _)] at hc
    exact List.count_eq_zero.mp (by omega)
  exact (last_slash hslash (slash_hexText _) hsplit).1

/-! ## Keys under a prefix are scanned together -/

/-- Between a text and a later one that it begins, everything begins with it. -/
theorem prefix_of_between {pre a b : Text} (hpa : pre ≤ a) (hab : a < b) (hb : pre <+: b) :
    pre <+: a := by
  induction pre generalizing a b with
  | nil => exact List.nil_prefix
  | cons c pre ih =>
      rcases hb with ⟨rest, rfl⟩
      rcases a with _ | ⟨d, a⟩
      · exact absurd hpa (by simp)
      · rw [List.cons_append, List.cons_lt_cons_iff] at hab
        have hnlt := not_lt.mpr hpa
        rw [List.cons_lt_cons_iff, not_or] at hnlt
        rcases hab with hab | ⟨rfl, hab⟩
        · exact absurd hab hnlt.1
        · have hpa' : pre ≤ a := not_lt.mp fun hlt => hnlt.2 ⟨rfl, hlt⟩
          exact (List.cons_prefix_cons).mpr ⟨rfl, ih hpa' hab ⟨rest, rfl⟩⟩

end MarketInfo.Keeper
