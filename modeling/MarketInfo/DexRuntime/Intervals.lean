import MarketInfo.Lib.Apart
import MarketInfo.Lib.Search
import Mathlib.Tactic.Common

/-! # Intervals of block heights

Coverage is a sorted list of intervals with both ends in it. A height is put into
the list or taken out of it where a binary search on the upper ends finds its
place. Heights go up to the largest unsigned word, so no end is moved past it.
-/

namespace MarketInfo.DexRuntime

structure Interval where
  From : UInt64
  To : UInt64
deriving DecidableEq, Repr

/-- `math.MaxUint64`. -/
def maxUint64 : UInt64 := 18446744073709551615

def contains (ranges : List Interval) (n : UInt64) : Bool :=
  let i := search ranges fun r => n ≤ r.To
  match ranges[i]? with
  | some r => r.From ≤ n
  | none => false

def add (ranges : List Interval) (n : UInt64) : List Interval :=
  let i := search ranges fun r => n ≤ r.To ∨ r.To ≠ maxUint64 ∧ r.To + 1 = n
  match ranges[i]? with
  | none => ranges ++ [⟨n, n⟩]
  | some r =>
      if r.From > n ∧ r.From - n > 1 then
        ranges.take i ++ ⟨n, n⟩ :: ranges.drop i
      else
        let r : Interval := ⟨min r.From n, max r.To n⟩
        match ranges[i + 1]? with
        | none => ranges.set i r
        | some next =>
            -- the interval may have grown as far as the one after it
            if r.To ≠ maxUint64 ∧ r.To + 1 ≥ next.From then
              (ranges.set i ⟨r.From, max r.To next.To⟩).eraseIdx (i + 1)
            else ranges.set i r

def remove (ranges : List Interval) (n : UInt64) : List Interval :=
  let i := search ranges fun r => n ≤ r.To
  match ranges[i]? with
  | none => ranges
  | some r =>
      if r.From > n then ranges
      else if r.From = n ∧ r.To = n then ranges.eraseIdx i
      else if r.From = n then ranges.set i ⟨r.From + 1, r.To⟩
      else if r.To = n then ranges.set i ⟨r.From, r.To - 1⟩
      else ranges.take i ++ ⟨r.From, n - 1⟩ :: ⟨n + 1, r.To⟩ :: ranges.drop (i + 1)

/-- `validIntervals` from an interval on, `previous` the one before it. -/
def validAfter (previous : Option Interval) : List Interval → Bool
  | [] => true
  | r :: rest =>
      if r.From = 0 ∨ r.From > r.To ∨
          previous.any (fun p => p.To = maxUint64 ∨ p.To + 1 ≥ r.From) = true then false
      else validAfter (some r) rest

def validIntervals (ranges : List Interval) : Bool := validAfter none ranges

def Interval.span (r : Interval) : Span := ⟨r.From.toNat, r.To.toNat⟩

def spans (ranges : List Interval) : List Span := ranges.map Interval.span

/-- The heights that a list of intervals covers. -/
def Covers (ranges : List Interval) (n : Nat) : Prop := Span.Covered (spans ranges) n

/-- Sorted, disjoint and merged as far as possible, without the height zero. -/
def Merged (ranges : List Interval) : Prop :=
  Span.Apart (spans ranges) ∧ ∀ r ∈ ranges, 0 < r.From.toNat

theorem spans_append (rs qs : List Interval) : spans (rs ++ qs) = spans rs ++ spans qs :=
  List.map_append

theorem spans_cons (r : Interval) (rs : List Interval) : spans (r :: rs) = r.span :: spans rs := rfl

@[simp] theorem covers_nil (n : Nat) : ¬ Covers [] n := Span.covered_nil n

theorem covers_cons {r : Interval} {rs : List Interval} {n : Nat} :
    Covers (r :: rs) n ↔ (r.From.toNat ≤ n ∧ n ≤ r.To.toNat) ∨ Covers rs n :=
  Span.covered_cons

theorem covers_append {rs qs : List Interval} {n : Nat} :
    Covers (rs ++ qs) n ↔ Covers rs n ∨ Covers qs n := by
  unfold Covers
  rw [spans_append, Span.covered_append]

@[simp] theorem merged_nil : Merged [] := ⟨Span.apart_nil, by simp⟩

theorem merged_cons {r : Interval} {rs : List Interval} :
    Merged (r :: rs) ↔ (0 < r.From.toNat ∧ r.From.toNat ≤ r.To.toNat) ∧
      (∀ q ∈ rs, r.To.toNat + 1 < q.From.toNat) ∧ Merged rs := by
  unfold Merged spans
  rw [List.map_cons, Span.apart_cons, List.forall_mem_cons, List.forall_mem_map]
  unfold Interval.span
  tauto

theorem merged_append {rs qs : List Interval} :
    Merged (rs ++ qs) ↔ Merged rs ∧ Merged qs ∧
      ∀ a ∈ rs, ∀ b ∈ qs, a.To.toNat + 1 < b.From.toNat := by
  unfold Merged spans
  rw [List.map_append, Span.apart_append, List.forall_mem_append]
  simp only [List.forall_mem_map]
  unfold Interval.span
  tauto

theorem Merged.ordered {ranges : List Interval} (h : Merged ranges) {r : Interval}
    (hr : r ∈ ranges) : 0 < r.From.toNat ∧ r.From.toNat ≤ r.To.toNat :=
  ⟨h.2 r hr, h.1.1 r.span (List.mem_map_of_mem hr)⟩

theorem span_injective : Function.Injective Interval.span := by
  intro r q h
  unfold Interval.span at h
  rw [Span.mk.injEq, UInt64.toNat_inj, UInt64.toNat_inj] at h
  cases r
  cases q
  rw [Interval.mk.injEq]
  exact h

/-- The heights that are covered determine the intervals. -/
theorem Merged.ext {rs qs : List Interval} (h : Merged rs) (h' : Merged qs)
    (hcov : ∀ n, Covers rs n ↔ Covers qs n) : rs = qs :=
  span_injective.list_map (h.1.ext h'.1 hcov)

theorem Merged.pairwise {ranges : List Interval} (h : Merged ranges) :
    ranges.Pairwise fun a b => a.To.toNat < b.To.toNat := by
  have hgap : ranges.Pairwise fun a b => a.To.toNat + 1 < b.From.toNat :=
    List.pairwise_map.mp h.1.2
  refine hgap.imp_of_mem fun ha hb hlt => ?_
  have := (h.ordered hb).2
  omega

/-- Where a bound on the upper ends splits the list. -/
theorem Merged.split {ranges : List Interval} (h : Merged ranges) {p : Interval → Bool} {k : Nat}
    (hp : ∀ r, p r = true ↔ k ≤ r.To.toNat) :
    ∃ pre post, ranges = pre ++ post ∧ search ranges p = pre.length ∧
      (∀ r ∈ pre, r.To.toNat < k) ∧ ∀ r ∈ post, k ≤ r.To.toNat := by
  have hmono : ranges.Pairwise fun a b => p a = true → p b = true := by
    refine h.pairwise.imp fun hlt hpa => ?_
    rw [hp] at hpa ⊢
    omega
  rcases exists_split hmono with ⟨pre, post, rfl, hpre, hpost⟩
  refine ⟨pre, post, rfl, search_append hpre hpost, fun r hr => ?_, fun r hr => ?_⟩
  · by_contra hle
    have := hpre r hr
    rw [(hp r).mpr (not_lt.mp hle)] at this
    cases this
  · exact (hp r).mp (hpost r hr)

theorem toNat_succ {a b : UInt64} (h : a.toNat < b.toNat) : (a + 1).toNat = a.toNat + 1 := by
  have := b.toNat_lt
  rw [UInt64.toNat_add, UInt64.toNat_one]
  omega

theorem toNat_lt_maxUint64 {a : UInt64} (h : a ≠ maxUint64) : a.toNat < maxUint64.toNat := by
  have hne : a.toNat ≠ maxUint64.toNat := fun heq => h (UInt64.toNat_inj.mp heq)
  have := a.toNat_lt
  have hmax : maxUint64.toNat = 2 ^ 64 - 1 := rfl
  omega

/-- The interval holds the height or ends right before it. -/
theorem reaches_iff (r : Interval) (n : UInt64) :
    decide (n ≤ r.To ∨ r.To ≠ maxUint64 ∧ r.To + 1 = n) = true ↔ n.toNat - 1 ≤ r.To.toNat := by
  rw [decide_eq_true_iff, UInt64.le_iff_toNat_le]
  have hn := n.toNat_lt
  have hmax : maxUint64.toNat = 2 ^ 64 - 1 := rfl
  by_cases hto : r.To = maxUint64
  · rw [hto]
    omega
  · have hlt := toNat_lt_maxUint64 hto
    rw [← UInt64.toNat_inj, toNat_succ hlt]
    simp only [ne_eq, hto, not_false_eq_true, true_and]
    omega

theorem holds_iff (r : Interval) (n : UInt64) :
    decide (n ≤ r.To) = true ↔ n.toNat ≤ r.To.toNat := by
  rw [decide_eq_true_iff, UInt64.le_iff_toNat_le]

/-- No interval of a list that ends before the height covers it. -/
theorem not_covers_of_ends {rs : List Interval} {n : Nat} (h : ∀ r ∈ rs, r.To.toNat < n) :
    ¬ Covers rs n := by
  rintro ⟨x, hx, hlo, hhi⟩
  rcases List.mem_map.mp hx with ⟨r, hr, rfl⟩
  exact absurd hhi (not_le.mpr (h r hr))

/-- No interval of a list that starts after the height covers it. -/
theorem not_covers_of_starts {rs : List Interval} {n : Nat} (h : ∀ r ∈ rs, n < r.From.toNat) :
    ¬ Covers rs n := by
  rintro ⟨x, hx, hlo, hhi⟩
  rcases List.mem_map.mp hx with ⟨r, hr, rfl⟩
  exact absurd hlo (not_le.mpr (h r hr))

theorem contains_iff {ranges : List Interval} (h : Merged ranges) (n : UInt64) :
    contains ranges n = true ↔ Covers ranges n.toNat := by
  rcases h.split fun r => holds_iff r n with ⟨pre, post, rfl, hat, hpre, hpost⟩
  have hnone := not_covers_of_ends hpre
  unfold contains
  simp only [hat]
  cases post with
  | nil => simpa [covers_append] using hnone
  | cons r post =>
      have hr := hpost r (List.mem_cons_self ..)
      rcases merged_cons.mp (merged_append.mp h).2.1 with ⟨-, hlater, -⟩
      have hafter : ¬ Covers post n.toNat :=
        not_covers_of_starts fun q hq => by have := hlater q hq; omega
      simp [covers_append, covers_cons, hnone, hafter, hr, UInt64.le_iff_toNat_le]

/-- Putting other intervals between the same neighbours. -/
theorem Merged.replace {pre post : List Interval} (mid mid' : List Interval)
    (h : Merged (pre ++ (mid ++ post))) (hmid : Merged mid')
    (hlow : ∀ a ∈ pre, ∀ b ∈ mid', a.To.toNat + 1 < b.From.toNat)
    (hhigh : ∀ a ∈ mid', ∀ b ∈ post, a.To.toNat + 1 < b.From.toNat) :
    Merged (pre ++ (mid' ++ post)) := by
  rcases merged_append.mp h with ⟨hpre, hrest, hbetween⟩
  rcases merged_append.mp hrest with ⟨-, hpost, -⟩
  refine merged_append.mpr ⟨hpre, merged_append.mpr ⟨hmid, hpost, hhigh⟩, fun a ha b hb => ?_⟩
  rcases List.mem_append.mp hb with hb | hb
  · exact hlow a ha b hb
  · exact hbetween a ha b (List.mem_append_right _ hb)

theorem merged_singleton {r : Interval} (h : 0 < r.From.toNat) (h' : r.From.toNat ≤ r.To.toNat) :
    Merged [r] :=
  merged_cons.mpr ⟨⟨h, h'⟩, by simp, merged_nil⟩

theorem apart_iff {a n : UInt64} : a > n ∧ a - n > 1 ↔ n.toNat + 1 < a.toNat := by
  rw [gt_iff_lt, gt_iff_lt, UInt64.lt_iff_toNat_lt, UInt64.lt_iff_toNat_lt, UInt64.toNat_one]
  constructor
  · rintro ⟨hlt, hsub⟩
    rw [UInt64.toNat_sub_of_le _ _ (UInt64.le_iff_toNat_le.mpr hlt.le)] at hsub
    omega
  · intro h
    have hle : n ≤ a := UInt64.le_iff_toNat_le.mpr (by omega)
    rw [UInt64.toNat_sub_of_le _ _ hle]
    omega

/-- An end before the start of the next interval has a successor, so the test cannot wrap. -/
theorem touches_iff {a b : UInt64} (h : a.toNat < b.toNat) :
    a ≠ maxUint64 ∧ a + 1 ≥ b ↔ b.toNat ≤ a.toNat + 1 := by
  have hne : a ≠ maxUint64 := by
    rintro rfl
    have := b.toNat_lt
    have hmax : maxUint64.toNat = 2 ^ 64 - 1 := rfl
    omega
  rw [ge_iff_le, UInt64.le_iff_toNat_le, toNat_succ h]
  simp [hne]

/-- One interval in the place of others covers the height `n` besides what they covered. -/
theorem Merged.put {pre post : List Interval} (mid : List Interval) {x : Interval} {n : Nat}
    (h : Merged (pre ++ (mid ++ post))) (hpos : 0 < x.From.toNat) (hle : x.From.toNat ≤ x.To.toNat)
    (hlow : ∀ a ∈ pre, a.To.toNat + 1 < x.From.toNat)
    (hhigh : ∀ b ∈ post, x.To.toNat + 1 < b.From.toNat)
    (hcov : ∀ k, x.From.toNat ≤ k ∧ k ≤ x.To.toNat ↔ k = n ∨ Covers mid k) :
    Merged (pre ++ x :: post) ∧
      ∀ k, Covers (pre ++ x :: post) k ↔ k = n ∨ Covers (pre ++ (mid ++ post)) k := by
  refine ⟨h.replace mid [x] (merged_singleton hpos hle) ?_ ?_, fun k => ?_⟩
  · intro a ha b hb
    rw [List.mem_singleton.mp hb]
    exact hlow a ha
  · intro a ha b hb
    rw [List.mem_singleton.mp ha]
    exact hhigh b hb
  · rw [covers_append, covers_cons, covers_append, covers_append, hcov k]
    tauto

theorem add_spec {ranges : List Interval} (h : Merged ranges) {n : UInt64} (hn : 0 < n.toNat) :
    Merged (add ranges n) ∧
      ∀ k, Covers (add ranges n) k ↔ k = n.toNat ∨ Covers ranges k := by
  rcases h.split fun r => reaches_iff r n with ⟨pre, post, rfl, hat, hpre, hpost⟩
  rcases merged_append.mp h with ⟨-, hmpost, hbetween⟩
  have hnlow : ∀ a ∈ pre, a.To.toNat + 1 < n.toNat := fun a ha => by
    have := hpre a ha
    omega
  have hself : ∀ k, n.toNat ≤ k ∧ k ≤ n.toNat ↔ k = n.toNat ∨ Covers [] k := fun k => by
    simp only [covers_nil, or_false]
    omega
  unfold add
  simp only [hat]
  cases post with
  | nil =>
      simp only [List.append_nil, List.getElem?_length]
      have hput := Merged.put (x := ⟨n, n⟩) [] h hn (le_refl _) hnlow (by simp) hself
      simpa only [List.append_nil] using hput
  | cons r post =>
      rcases merged_cons.mp hmpost with ⟨⟨hpos, hle⟩, hlater, -⟩
      have hr := hpost r (List.mem_cons_self ..)
      have hbefore : ∀ a ∈ pre, a.To.toNat + 1 < r.From.toNat := fun a ha =>
        hbetween a ha r (List.mem_cons_self ..)
      have hsome : (pre ++ r :: post)[pre.length]? = some r := by simp
      simp only [hsome, apart_iff]
      split_ifs with hgap
      · -- the height lies before the interval with room between them
        rw [List.take_left, List.drop_left]
        refine Merged.put [] h hn (le_refl _) hnlow (fun b hb => ?_) hself
        rcases List.mem_cons.mp hb with rfl | hb
        · exact hgap
        · have := hlater b hb
          simp only
          omega
      · -- the interval takes the height in, and with it perhaps the interval after it
        have hfrom : (min r.From n).toNat = min r.From.toNat n.toNat := UInt64.toNat_min ..
        have hto : (max r.To n).toNat = max r.To.toNat n.toNat := UInt64.toNat_max ..
        have hlow : ∀ a ∈ pre, a.To.toNat + 1 < (min r.From n).toNat := fun a ha => by
          have := hbefore a ha
          have := hnlow a ha
          omega
        have hset : (pre ++ r :: post).set pre.length ⟨min r.From n, max r.To n⟩ =
            pre ++ ⟨min r.From n, max r.To n⟩ :: post := by simp
        have hgrown : ∀ k, (min r.From n).toNat ≤ k ∧ k ≤ (max r.To n).toNat ↔
            k = n.toNat ∨ Covers [r] k := fun k => by
          rw [covers_cons]
          simp only [covers_nil, or_false, hfrom, hto]
          omega
        cases post with
        | nil =>
            have hnone : (pre ++ [r])[pre.length + 1]? = none := by simp
            simp only [hnone, hset]
            exact Merged.put [r] h (by simp only; omega) (by simp only; omega)
              hlow (by simp) hgrown
        | cons next post =>
            rcases merged_cons.mp (merged_cons.mp hmpost).2.2 with ⟨⟨-, hnextle⟩, hnextlater, -⟩
            have hnext := hlater next (List.mem_cons_self ..)
            have hafter : (pre ++ r :: next :: post)[pre.length + 1]? = some next := by simp
            simp only [hafter, touches_iff (a := max r.To n) (b := next.From) (by omega)]
            split_ifs with htouch
            · have hjoin : ((pre ++ r :: next :: post).set pre.length
                  ⟨min r.From n, max (max r.To n) next.To⟩).eraseIdx (pre.length + 1) =
                  pre ++ ⟨min r.From n, max (max r.To n) next.To⟩ :: post := by
                simp [List.eraseIdx_append]
              have hto' : (max (max r.To n) next.To).toNat = next.To.toNat := by
                rw [UInt64.toNat_max, hto]
                omega
              rw [hjoin]
              refine Merged.put [r, next] h (by simp only; omega) (by simp only; omega)
                hlow (fun b hb => ?_) fun k => ?_
              · simp only [hto']
                exact hnextlater b hb
              · rw [covers_cons, covers_cons]
                simp only [covers_nil, or_false, hfrom, hto']
                omega
            · rw [hset]
              refine Merged.put [r] h (by simp only; omega) (by simp only; omega)
                hlow (fun b hb => ?_) hgrown
              rcases List.mem_cons.mp hb with rfl | hb
              · simp only
                omega
              · have := hnextlater b hb
                simp only
                omega

/-- Cutting a height out of the one interval that holds it. -/
theorem Merged.cut {pre post : List Interval} {r : Interval} {n : Nat}
    (h : Merged (pre ++ r :: post)) (hfrom : r.From.toNat ≤ n) (hto : n ≤ r.To.toNat)
    (mid : List Interval) (hmid : Merged mid)
    (hwithin : ∀ x ∈ mid, r.From.toNat ≤ x.From.toNat ∧ x.To.toNat ≤ r.To.toNat)
    (hcov : ∀ k, Covers mid k ↔ k ≠ n ∧ r.From.toNat ≤ k ∧ k ≤ r.To.toNat) :
    Merged (pre ++ (mid ++ post)) ∧
      ∀ k, Covers (pre ++ (mid ++ post)) k ↔ k ≠ n ∧ Covers (pre ++ r :: post) k := by
  rcases merged_append.mp h with ⟨-, hmpost, hbetween⟩
  rcases merged_cons.mp hmpost with ⟨-, hlater, -⟩
  have hbefore := fun a ha => hbetween a ha r (List.mem_cons_self ..)
  refine ⟨Merged.replace [r] mid h hmid ?_ ?_, fun k => ?_⟩
  · intro a ha b hb
    have := hbefore a ha
    have := (hwithin b hb).1
    omega
  · intro a ha b hb
    have := hlater b hb
    have := (hwithin a ha).2
    omega
  · have hpre : ¬ Covers pre n :=
      not_covers_of_ends fun a ha => by have := hbefore a ha; omega
    have hpost : ¬ Covers post n :=
      not_covers_of_starts fun b hb => by have := hlater b hb; omega
    rw [covers_append, covers_append, covers_append, covers_cons, hcov k]
    by_cases hk : k = n
    · subst hk
      tauto
    · tauto

theorem remove_spec {ranges : List Interval} (h : Merged ranges) (n : UInt64) :
    Merged (remove ranges n) ∧
      ∀ k, Covers (remove ranges n) k ↔ k ≠ n.toNat ∧ Covers ranges k := by
  rcases h.split fun r => holds_iff r n with ⟨pre, post, rfl, hat, hpre, hpost⟩
  have hnone := not_covers_of_ends hpre
  unfold remove
  simp only [hat]
  have hkeep : ¬ Covers (pre ++ post) n.toNat → Merged (pre ++ post) ∧
      ∀ k, Covers (pre ++ post) k ↔ k ≠ n.toNat ∧ Covers (pre ++ post) k := fun hout =>
    ⟨h, fun k => ⟨fun hk => ⟨fun heq => hout (heq ▸ hk), hk⟩, And.right⟩⟩
  cases post with
  | nil =>
      simp only [List.append_nil, List.getElem?_length] at hkeep ⊢
      exact hkeep hnone
  | cons r post =>
      rcases merged_append.mp h with ⟨-, hmpost, -⟩
      rcases merged_cons.mp hmpost with ⟨⟨hpos, hle⟩, hlater, -⟩
      have hr := hpost r (List.mem_cons_self ..)
      have hsome : (pre ++ r :: post)[pre.length]? = some r := by simp
      simp only [hsome]
      have hset : ∀ x, (pre ++ r :: post).set pre.length x = pre ++ ([x] ++ post) := by simp
      split_ifs with hafter hone hfirst hlast
      · refine hkeep fun hcov => ?_
        have hlt := UInt64.lt_iff_toNat_lt.mp hafter
        rcases covers_append.mp hcov with hcov | hcov
        · exact hnone hcov
        · refine not_covers_of_starts (fun b hb => ?_) hcov
          rcases List.mem_cons.mp hb with rfl | hb
          · exact hlt
          · have := hlater b hb
            omega
      · have herase : (pre ++ r :: post).eraseIdx pre.length = pre ++ ([] ++ post) := by
          simp [List.eraseIdx_append]
        rw [herase]
        rw [← UInt64.toNat_inj, ← UInt64.toNat_inj] at hone
        refine h.cut (by omega) hr [] merged_nil (by simp) fun k => ?_
        simp only [covers_nil, false_iff]
        omega
      · have hto : n.toNat < r.To.toNat := by
          have hne : r.To.toNat ≠ n.toNat := fun heq => hone ⟨hfirst, UInt64.toNat_inj.mp heq⟩
          omega
        have hsucc : (r.From + 1).toNat = r.From.toNat + 1 := toNat_succ (b := r.To) (by
          rw [hfirst]
          exact hto)
        have hfrom : r.From.toNat = n.toNat := by rw [hfirst]
        rw [hset]
        refine h.cut hfrom.le hr [_] (merged_singleton ?_ ?_) ?_ fun k => ?_
        · dsimp only
          omega
        · dsimp only
          omega
        · intro x hx
          rw [List.mem_singleton.mp hx]
          exact ⟨by dsimp only; omega, le_refl _⟩
        · rw [covers_cons]
          simp only [covers_nil, or_false]
          omega
      · have hfrom : r.From.toNat < n.toNat := by
          have hne : r.From.toNat ≠ n.toNat := fun heq => hfirst (UInt64.toNat_inj.mp heq)
          rw [gt_iff_lt, UInt64.lt_iff_toNat_lt] at hafter
          omega
        have hto : r.To.toNat = n.toNat := by rw [hlast]
        have hpred : (r.To - 1).toNat = r.To.toNat - 1 :=
          UInt64.toNat_sub_of_le _ _ (UInt64.le_iff_toNat_le.mpr (by
            rw [UInt64.toNat_one]
            omega))
        rw [hset]
        refine h.cut hfrom.le hr [_] (merged_singleton ?_ ?_) ?_ fun k => ?_
        · exact hpos
        · dsimp only
          omega
        · intro x hx
          rw [List.mem_singleton.mp hx]
          exact ⟨le_refl _, by dsimp only; omega⟩
        · rw [covers_cons]
          simp only [covers_nil, or_false]
          omega
      · -- the height lies inside, so the interval falls into two
        have hfrom : r.From.toNat < n.toNat := by
          have hne : r.From.toNat ≠ n.toNat := fun heq => hfirst (UInt64.toNat_inj.mp heq)
          rw [gt_iff_lt, UInt64.lt_iff_toNat_lt] at hafter
          omega
        have hto : n.toNat < r.To.toNat := by
          have hne : r.To.toNat ≠ n.toNat := fun heq => hlast (UInt64.toNat_inj.mp heq)
          omega
        have hpred : (n - 1).toNat = n.toNat - 1 :=
          UInt64.toNat_sub_of_le _ _ (UInt64.le_iff_toNat_le.mpr (by
            rw [UInt64.toNat_one]
            omega))
        have hsucc := toNat_succ hto
        have hdrop : (pre ++ r :: post).drop (pre.length + 1) = post := by simp
        rw [List.take_left, hdrop]
        refine h.cut hfrom.le hr [⟨r.From, n - 1⟩, ⟨n + 1, r.To⟩] ?_ ?_ fun k => ?_
        · refine merged_cons.mpr ⟨⟨hpos, ?_⟩, ?_, merged_singleton ?_ ?_⟩
          · dsimp only
            omega
          · intro x hx
            rw [List.mem_singleton.mp hx]
            dsimp only
            omega
          · dsimp only
            omega
          · dsimp only
            omega
        · intro x hx
          rcases List.mem_pair.mp hx with rfl | rfl
          · exact ⟨le_refl _, by dsimp only; omega⟩
          · exact ⟨by dsimp only; omega, le_refl _⟩
        · rw [covers_cons, covers_cons]
          simp only [covers_nil, or_false]
          omega

theorem not_meets_iff {a b : UInt64} :
    ¬ (a = maxUint64 ∨ a + 1 ≥ b) ↔ a.toNat + 1 < b.toNat := by
  rw [not_or, ge_iff_le, UInt64.le_iff_toNat_le, not_le]
  constructor
  · rintro ⟨hne, hlt⟩
    rwa [toNat_succ (toNat_lt_maxUint64 hne)] at hlt
  · intro h
    have hlt : a.toNat < b.toNat := by omega
    refine ⟨?_, by rwa [toNat_succ hlt]⟩
    rintro rfl
    have := b.toNat_lt
    have hmax : maxUint64.toNat = 2 ^ 64 - 1 := rfl
    omega

theorem validAfter_of_merged {ranges : List Interval} (h : Merged ranges)
    {previous : Option Interval}
    (hprev : ∀ p ∈ previous, ∀ r ∈ ranges, p.To.toNat + 1 < r.From.toNat) :
    validAfter previous ranges = true := by
  induction ranges generalizing previous with
  | nil => rfl
  | cons r rest ih =>
      rcases merged_cons.mp h with ⟨⟨hpos, hle⟩, hlater, hrest⟩
      unfold validAfter
      rw [if_neg]
      · refine ih hrest fun p hp q hq => ?_
        rw [← Option.mem_some.mp hp]
        exact hlater q hq
      · rintro (hzero | hgt | hmeets)
        · rw [hzero] at hpos
          exact absurd hpos (by decide)
        · rw [gt_iff_lt, UInt64.lt_iff_toNat_lt] at hgt
          omega
        · rcases Option.any_eq_true _ _ |>.mp hmeets with ⟨p, hp, hmeet⟩
          exact not_meets_iff.mpr (hprev p hp r (List.mem_cons_self ..)) (of_decide_eq_true hmeet)

theorem Merged.valid {ranges : List Interval} (h : Merged ranges) : validIntervals ranges = true :=
  validAfter_of_merged h (by simp)

end MarketInfo.DexRuntime
