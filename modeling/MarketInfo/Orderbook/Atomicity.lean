import MarketInfo.Orderbook.Invariant

/-! # A failed change set leaves no trace

What `ApplyChanges` does to a book whose levels are positive, as the levels of
every reachable book are.
-/

namespace MarketInfo

open PriceMap

namespace Book

variable {b : Book} {changes : ChangeSet} {expected : Int64}

/-- What the program can do to a book it made. -/
inductive Reachable : Book → Prop
  | new {instrumentID : UInt32} {retainedDepth : Nat} {b : Book}
      (h : Book.new instrumentID retainedDepth = .ok b) : Reachable b
  | snapshot {b : Book} (s : BookSnapshot) (h : Reachable b) : Reachable (b.applySnapshot s).1
  | changes {b : Book} (expected : Int64) (c : ChangeSet) (h : Reachable b) :
      Reachable (b.applyChanges expected c).1
  | invalid {b : Book} (reason : String) (h : Reachable b) : Reachable (b.markInvalid reason)
  | resyncing {b : Book} (reason : String) (h : Reachable b) : Reachable (b.markResyncing reason)

theorem Reachable.sound (h : Reachable b) : Sound b := by
  induction h with
  | new h => exact sound_new h
  | snapshot s _ ih => exact ih.applySnapshot s
  | changes expected c _ ih => exact ih.applyChanges expected c
  | invalid reason _ ih => exact ih.markInvalid reason
  | resyncing reason _ ih => exact ih.markResyncing reason

/-- Every level of a book, its sequence and its update time. -/
structure Unchanged (b b' : Book) : Prop where
  levels : ∀ bids p, (b'.side bids).lookup p = (b.side bids).lookup p
  sequence : b'.sequence = b.sequence
  sourceTime : b'.sourceTime = b.sourceTime

/-- No more levels than retained, none empty, and the best bid below the best ask. -/
structure Orderly (b : Book) : Prop where
  bounded : ∀ bids, (b.side bids).len ≤ b.retainedDepth
  nonzero : ∀ bids p, (b.side bids).lookup p ≠ some 0
  uncrossed : ∀ bid ∈ (b.side true).keys, ∀ ask ∈ (b.side false).keys, bid < ask

/-- An applied change set leaves an orderly book, also where it invalidates it. -/
theorem Applied.orderly {b' : Book} (hb : Sound b)
    (hok : b.checkChanges expected changes = .ok ())
    (hx : crossed (b.changed changes true) (b.changed changes false) = false)
    (h : Applied b changes b') : Orderly b' := by
  have hwf := (checkChanges_eq_ok.1 hok).2.1
  have hpos : ∀ bids p q, (b.changed changes bids).lookup p = some q → 0 < p ∧ q ≠ 0 :=
    fun bids p q hq => positive_putAll (hb.positive bids) (hwf bids).1 p q hq
  have hkeys : ∀ bids p, p ∈ (b'.side bids).keys → p ∈ (b.changed changes bids).keys := by
    intro bids p hp
    rcases exists_lookup hp with ⟨q, hq⟩
    rw [h.side] at hq
    exact mem_of_lookup (lookup_trim_sub hq)
  constructor
  · intro bids
    rw [h.side, len_trim, h.retained]
    exact Nat.min_le_left _ _
  · intro bids p hp
    rw [h.side] at hp
    exact (hpos bids p 0 (lookup_trim_sub hp)).2 rfl
  · intro bid hbid ask hask
    have hbids : ∀ p ∈ (b.changed changes true).keys, 0 < p := by
      intro p hp
      rcases exists_lookup hp with ⟨q, hq⟩
      exact (hpos true p q hq).1
    exact (crossed_eq_false_iff hbids).1 hx bid (hkeys true bid hbid) ask (hkeys false ask hask)

/-- A rejected change set changes nothing of the book, and an accepted one leaves
it orderly. -/
theorem applyChanges_atomic (hb : Sound b) (expected : Int64) (changes : ChangeSet) :
    ((b.applyChanges expected changes).2 ≠ .ok () →
        Unchanged b (b.applyChanges expected changes).1) ∧
      ((b.applyChanges expected changes).2 = .ok () →
        Orderly (b.applyChanges expected changes).1) := by
  rcases applyChanges_cases b expected changes with ⟨e, he, hsame⟩ | ⟨hok, hx, hdone, happ⟩
  · rw [he]
    exact ⟨fun _ => ⟨hsame.lookup, hsame.sequence, hsame.sourceTime⟩, fun h => by cases h⟩
  · exact ⟨fun h => absurd hdone h, fun _ => happ.orderly hb hok hx⟩

/-- A book with one level a side. -/
def oneLevel : Book where
  instrumentID := 7
  retainedDepth := bookDepth
  state := .valid
  reason := ""
  sequence := 1
  sourceTime := ⟨1, 0⟩
  bids := levelsToMap [⟨5, 1⟩]
  asks := levelsToMap [⟨9, 1⟩]
  bidSideComplete := true
  askSideComplete := true

/-- It rejects a bid at its ask, and the deletion of its bid before that is undone. -/
theorem applyChanges_atomic_crossing :
    (oneLevel.applyChanges 1 ⟨⟨2, 0⟩, 2, [⟨5, 0⟩, ⟨9, 1⟩], []⟩).2 ≠ .ok () ∧
      Unchanged oneLevel (oneLevel.applyChanges 1 ⟨⟨2, 0⟩, 2, [⟨5, 0⟩, ⟨9, 1⟩], []⟩).1 := by
  have hb : Sound oneLevel := by
    refine ⟨by decide, by decide, ?_, fun _ => by decide, fun _ => by decide, rfl, ?_, ?_⟩
    · intro bids p q hq
      have hmem := (lookup_ofLevels (by cases bids <;> decide)).1
        (show (PriceMap.ofLevels (if bids then [⟨5, 1⟩] else [⟨9, 1⟩])).lookup p = some q by
          cases bids <;> exact hq)
      cases bids with
      | false =>
          cases List.mem_singleton.1 hmem
          decide
      | true =>
          cases List.mem_singleton.1 hmem
          decide
    · decide
    · intro _ bids _
      cases bids <;> rfl
  have hrejected : (oneLevel.applyChanges 1 ⟨⟨2, 0⟩, 2, [⟨5, 0⟩, ⟨9, 1⟩], []⟩).2 ≠ .ok () := by
    decide
  exact ⟨hrejected, (applyChanges_atomic hb 1 _).1 hrejected⟩

end Book

end MarketInfo
