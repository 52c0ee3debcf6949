import MarketInfo.Sampler.Handover

/-! # What a second reads

Each source of a second is read into its buffer, or marked as missed once the deadline has passed. A buffer of
the minute has recorded the readings of its source, in order.
-/

namespace MarketInfo.Sampler

open Listing (Sorted)

/-- What a source was read as. -/
structure Reading where
  source : Source
  sample : MinuteSample

namespace Reading

@[reducible] def OfMinute (p : Reading) (minute : Time) : Prop := (sampleMinute p.sample.time).Equal minute

/-- A valid book of the source was read. -/
@[reducible] def OfValidBook (p : Reading) : Prop :=
  p.sample.OfValidBook p.source.instrumentID p.source.storedDepth

end Reading

/-- Within a minute the seconds of an instrument increase. -/
def Steady (log : List Reading) : Prop :=
  log.Pairwise fun a b => a.source.instrumentID = b.source.instrumentID →
    b.OfMinute (sampleMinute a.sample.time) → a.sample.second < b.sample.second

namespace Engine

/-- The clock shows the deadline neither before the source of the index was read nor after. -/
@[reducible] def Readings.InTime (r : Readings) (deadline : Time) (index : Nat) : Prop :=
  r.beforeLoop.Before deadline ∧ ∀ j ≤ index, (r.afterSnapshot j).Before deadline

/-- What the source of the index is read as. -/
def Readings.read (r : Readings) (time deadline : Time) (index : Nat) : MinuteSample :=
  if r.InTime deadline index then ⟨time, (r.books index).1, (r.books index).2⟩ else ⟨time, .none, false⟩

/-- What is read in a second. -/
def readings (e : Engine) (time deadline : Time) (r : Readings) : List Reading :=
  e.sources.mapIdx fun i s => ⟨s, r.read time deadline i⟩

end Engine

variable {e e' : Engine} {time deadline minute : Time} {r : Engine.Readings} {sources : List Source}

theorem ne_of_rank {s t : Source} (h : s.rank < t.rank) : s.instrumentID ≠ t.instrumentID := by
  intro heq
  unfold Source.rank at h
  rw [heq] at h
  exact lt_irrefl _ h

/-! ## Into the buffers -/

/-- Each reading was sampled into the buffer of its source. -/
structure Took (f g : UInt32 → Option MinuteBuffer) (readings : List Reading) : Prop where
  others : ∀ id, (∀ p ∈ readings, p.source.instrumentID ≠ id) → g id = f id
  each : ∀ p ∈ readings, ∃ b, f p.source.instrumentID = some b ∧
    g p.source.instrumentID = some (b.sample p.sample.time p.sample.snapshot p.sample.valid).1

theorem Took.cons {f g : UInt32 → Option MinuteBuffer} {p : Reading} {rest : List Reading} {b : MinuteBuffer}
    (hb : f p.source.instrumentID = some b)
    (hnew : ∀ q ∈ rest, p.source.instrumentID ≠ q.source.instrumentID)
    (h : Took (Function.update f p.source.instrumentID
      (some (b.sample p.sample.time p.sample.snapshot p.sample.valid).1)) g rest) : Took f g (p :: rest) := by
  constructor
  · intro id hid
    rw [h.others id fun q hq => hid q (List.mem_cons_of_mem _ hq)]
    exact Function.update_of_ne (Ne.symm (hid p List.mem_cons_self)) _ _
  · intro q hq
    rcases List.mem_cons.1 hq with rfl | hq
    · refine ⟨b, hb, ?_⟩
      rw [h.others _ fun p hp => Ne.symm (hnew p hp), Function.update_self]
    · obtain ⟨b', hb', hg⟩ := h.each q hq
      rw [Function.update_of_ne (Ne.symm (hnew q hq))] at hb'
      exact ⟨b', hb', hg⟩

theorem sampleInto_ok {s : Source} {snapshot : BookSnapshot} {valid : Bool}
    (h : e.sampleInto time s snapshot valid = (e', .ok ())) : ∃ b, e.buffers s.instrumentID = some b ∧
      e' = { e with buffers := Function.update e.buffers s.instrumentID (some (b.sample time snapshot valid).1) } := by
  unfold Engine.sampleInto at h
  split at h
  · cases h
  · rename_i b hb
    exact ⟨b, hb, (Prod.mk.inj h).1.symm⟩

/-- The sources of an overrun are missed. -/
def missed (time : Time) (sources : List Source) : List Reading := sources.map fun s => ⟨s, ⟨time, .none, false⟩⟩

theorem markMissed_took (hids : Sorted Source.rank sources)
    (hok : (Engine.markMissed time sources e).2 = .ok ()) :
    Took e.buffers (Engine.markMissed time sources e).1.buffers (missed time sources) := by
  induction sources generalizing e with
  | nil => exact ⟨fun _ _ => rfl, fun p hp => absurd hp List.not_mem_nil⟩
  | cons s rest ih =>
      obtain ⟨hnew, hrest⟩ := List.pairwise_cons.1 hids
      unfold Engine.markMissed at hok ⊢
      rcases hinto : e.sampleInto time s .none false with ⟨e₁, err | ⟨⟨⟩⟩⟩ <;> rw [hinto] at hok
      · cases hok
      · obtain ⟨b, hb, rfl⟩ := sampleInto_ok hinto
        refine Took.cons hb ?_ (ih hrest hok)
        intro q hq
        obtain ⟨t, ht, rfl⟩ := List.mem_map.1 hq
        exact ne_of_rank (hnew t ht)

theorem markOverrun_took {firstMissed : Nat} (hids : Sorted Source.rank (e.sources.drop firstMissed))
    (hok : (e.markOverrun time firstMissed).2 = .ok ()) :
    Took e.buffers (e.markOverrun time firstMissed).1.buffers (missed time (e.sources.drop firstMissed)) := by
  have hmissed : (Engine.markMissed time (e.sources.drop firstMissed) e).2 = .ok () → _ := markMissed_took hids
  unfold Engine.markOverrun at hok ⊢
  rcases hresult : Engine.markMissed time (e.sources.drop firstMissed) e with ⟨e₁, err | ⟨⟨⟩⟩⟩ <;>
    rw [hresult] at hmissed hok
  · cases hok
  · exact hmissed rfl

/-- Past the deadline every source is missed. -/
theorem missed_eq {index : Nat} (hlate : ∀ i, index ≤ i → ¬ r.InTime deadline i) (sources : List Source) :
    sources.mapIdx (fun i s => (⟨s, r.read time deadline (index + i)⟩ : Reading)) = missed time sources := by
  refine List.ext_getElem (by simp [missed]) ?_
  intro i h _
  simp [missed, Engine.Readings.read, hlate (index + i) (Nat.le_add_right _ _)]

theorem sampleSources_took {index : Nat} (hids : Sorted Source.rank sources)
    (hdrop : e.sources.drop index = sources) (hbefore : r.beforeLoop.Before deadline)
    (hearlier : ∀ j < index, (r.afterSnapshot j).Before deadline)
    (hok : (Engine.sampleSources time deadline r index sources e).2 = .ok ()) :
    Took e.buffers (Engine.sampleSources time deadline r index sources e).1.buffers
      (sources.mapIdx fun i s => ⟨s, r.read time deadline (index + i)⟩) := by
  induction sources generalizing index e with
  | nil => exact ⟨fun _ _ => rfl, fun p hp => absurd hp List.not_mem_nil⟩
  | cons s rest ih =>
      unfold Engine.sampleSources at hok ⊢
      by_cases htime : (r.afterSnapshot index).Before deadline
      · have hnow : ∀ j ≤ index, (r.afterSnapshot j).Before deadline := by
          intro j hj
          rcases Nat.lt_or_eq_of_le hj with hj | rfl
          · exact hearlier j hj
          · exact htime
        obtain ⟨hnew, hrest⟩ := List.pairwise_cons.1 hids
        rw [if_neg (not_not.2 htime)] at hok ⊢
        rcases hinto : e.sampleInto time s (r.books index).1 (r.books index).2 with ⟨e₁, err | ⟨⟨⟩⟩⟩ <;>
          rw [hinto] at hok
        · cases hok
        · obtain ⟨b, hb, he₁⟩ := sampleInto_ok hinto
          have hread : r.read time deadline index = ⟨time, (r.books index).1, (r.books index).2⟩ :=
            if_pos ⟨hbefore, hnow⟩
          have hnext : e₁.sources.drop (index + 1) = rest := by
            rw [he₁, ← List.drop_drop, hdrop]
            rfl
          have htook := ih hrest hnext (fun j hj => hnow j (Nat.le_of_lt_succ hj)) hok
          -- the reading of the source comes first, those of the rest keep their index
          have hlist : (s :: rest).mapIdx (fun i s => (⟨s, r.read time deadline (index + i)⟩ : Reading)) =
              ⟨s, ⟨time, (r.books index).1, (r.books index).2⟩⟩ ::
                rest.mapIdx fun i s => ⟨s, r.read time deadline (index + 1 + i)⟩ := by
            rw [List.mapIdx_cons, Nat.add_zero, hread]
            simp only [Nat.add_assoc, Nat.add_comm 1]
          rw [hlist]
          refine Took.cons hb ?_ (he₁ ▸ htook)
          intro q hq
          obtain ⟨i, hi, rfl⟩ := List.mem_mapIdx.1 hq
          exact ne_of_rank (hnew _ (List.getElem_mem hi))
      · rw [if_pos htime] at hok ⊢
        -- the clock has passed the deadline, so that no later source is read in time
        rw [missed_eq fun i hi h => htime (h.2 index hi), ← hdrop]
        exact markOverrun_took (hdrop ▸ hids) hok

/-- A second. -/
theorem takeSecond_took (h : Sorted Source.rank e.sources) (hok : (e.takeSecond time deadline r).2 = .ok ()) :
    Took e.buffers (e.takeSecond time deadline r).1.buffers (e.readings time deadline r) := by
  unfold Engine.takeSecond at hok ⊢
  by_cases hbefore : r.beforeLoop.Before deadline
  · rw [if_neg (not_not.2 hbefore)] at hok ⊢
    have htook : Took e.buffers _ (e.sources.mapIdx fun i s => ⟨s, r.read time deadline (0 + i)⟩) :=
      sampleSources_took h List.drop_zero hbefore (fun j hj => absurd hj (Nat.not_lt_zero j)) hok
    simp only [Nat.zero_add] at htook
    exact htook
  · rw [if_pos hbefore] at hok ⊢
    have hmissed : e.sources.mapIdx (fun i s => (⟨s, r.read time deadline (0 + i)⟩ : Reading)) =
        missed time e.sources := missed_eq (fun i _ h => hbefore h.1) e.sources
    simp only [Nat.zero_add] at hmissed
    unfold Engine.readings
    rw [hmissed]
    exact markOverrun_took h hok

end MarketInfo.Sampler
