import MarketInfo.Spool.Durability
import MarketInfo.Spool.Inspect

/-! # When the spool is seen as it is

The directory of a queue has deliveries, staging files that a crash has left, and the locks. What
`Inspect` counts and `ServicePending` finds are the deliveries, just when these are all there is
next to the lock of the directory.
-/

namespace MarketInfo.Spool

open CrashLogic (Prog wp wp_mono wp_pure wp_fail wp_ofExcept wp_run wp_bind wp_exec wp_stops wp_only only_bind
  only_run only_attempt only_ofExcept only_onExit only_onError)
open CrashLogic.Prog (attempt ofExcept onExit onError)
open Transition (Run)

variable {sha256 : List UInt8 → Vector UInt8 32} {z : Zlib} {d d' : Disk}

/-! ## Names -/

theorem IsBatch.suffix {n : Name} (h : IsBatch sha256 n) : [46, 98, 97, 116, 99, 104] <:+ n := by
  obtain ⟨x, rfl⟩ := h
  exact List.suffix_append _ _

theorem IsBatch.ne_consumer {n : Name} (h : IsBatch sha256 n) : n ≠ consumerName := by
  rintro rfl
  exact absurd h.suffix (by decide)

theorem IsBatch.ne_lock {n : Name} (h : IsBatch sha256 n) : n ≠ lockName := by
  rintro rfl
  exact absurd h.suffix (by decide)

/-- A name of a file that the queue or its consumer makes. -/
def Ours (sha256 : List UInt8 → Vector UInt8 32) (n : Name) : Prop :=
  IsBatch sha256 n ∨ pendingPrefix <+: n ∨ n = consumerName

theorem Ours.ne_lock {n : Name} (h : Ours sha256 n) : n ≠ lockName := by
  rcases h with hbatch | hpending | rfl
  · exact hbatch.ne_lock
  · rintro rfl
    exact absurd hpending (by decide)
  · decide

/-- Other names have no file, now or after a crash. -/
def Named (sha256 : List UInt8 → Vector UInt8 32) (d : Disk) : Prop :=
  ∀ n i, d.lookup n = some i ∨ some i ∈ d.stable n → Ours sha256 n

theorem named_empty : Named sha256 {} := by
  rintro n i (hlookup | hstable)
  · cases hlookup
  · cases List.mem_singleton.1 hstable

theorem Named.congr (h : Named sha256 d) (hnames : d'.names = d.names) (hstable : d'.stable = d.stable) :
    Named sha256 d' := by
  intro n i hi
  unfold Disk.lookup at hi
  rw [hnames, hstable] at hi
  exact h n i hi

theorem Named.link (h : Named sha256 d) {n : Name} {v : Option Nat} (hv : ∀ i, v = some i → Ours sha256 n) :
    Named sha256 (d.link n v) := by
  intro m i hi
  rw [Disk.lookup_link, Disk.stable_link] at hi
  split at hi
  · rename_i heq
    rw [heq]
    rcases hi with hnow | hlater
    · exact hv i hnow
    · rcases List.mem_cons.1 hlater with hnew | hold
      · exact hv i hnew.symm
      · exact h n i (.inr hold)
  · exact h m i hi

theorem Named.syncNames (h : Named sha256 d) : Named sha256 d.syncNames := by
  intro n i hi
  refine h n i (.inl ?_)
  rcases hi with hnow | hlater
  · exact hnow
  · exact (List.mem_singleton.1 hlater).symm

theorem Named.crash (h : Named sha256 d) (hcrash : Crash d d') : Named sha256 d' := by
  cases hcrash with
  | killed => exact h
  | powerLoss hloss =>
      intro n i hi
      refine h n i (.inr ?_)
      have hname := hloss.names n
      rcases hi with hnow | hlater
      · rw [hnow] at hname
        exact hname
      · rw [hloss.stable, List.mem_singleton] at hlater
        rw [← hlater] at hname
        exact hname

/-! ## The calls of the queue -/

/-- Files are renamed to the names of deliveries only. -/
def Tame (sha256 : List UInt8 → Vector UInt8 32) : Cmd → Prop
  | .rename _ target => IsBatch sha256 target
  | _ => True

theorem named_perform {c : Cmd} {r : Except Failure (Reply c)} (hc : Tame sha256 c) (h : Named sha256 d)
    (hstep : Perform d c r d') : Named sha256 d' := by
  cases c with
  | lock | context | close f =>
      obtain ⟨rfl, -⟩ := hstep
      exact h
  | read path =>
      rcases hstep with ⟨rfl, -⟩ | ⟨rfl, -⟩
      · exact h
      · exact h
  | list =>
      rcases hstep with ⟨rfl, -⟩ | ⟨rfl, -⟩
      · exact h
      · exact h
  | createTemp =>
      rcases hstep with ⟨rfl, -⟩ | ⟨tmp, htmp, -, -, rfl⟩
      · exact h
      · have hcreated : Named sha256 d.create := h.congr rfl rfl
        exact hcreated.link fun _ _ => .inr (.inl htmp)
  | write f bytes =>
      rcases hstep with ⟨e, n, -, -, rfl⟩ | ⟨-, rfl⟩
      · exact h.congr rfl rfl
      · exact h.congr rfl rfl
  | sync f =>
      rcases hstep with ⟨rfl, -⟩ | ⟨-, rfl⟩
      · exact h
      · exact h.congr rfl rfl
  | openRW path =>
      rcases hstep with ⟨rfl, -⟩ | ⟨rfl, -⟩
      · exact h
      · exact h
  | rename path target =>
      rcases hstep with ⟨rfl, -⟩ | hdone
      · exact h
      · split at hdone
        · obtain ⟨-, rfl⟩ := hdone
          exact h
        · obtain ⟨-, rfl⟩ := hdone
          -- the only names that a call chooses itself are those of deliveries
          exact (h.link fun _ _ => .inl hc).link nofun
  | remove path =>
      rcases hstep with ⟨rfl, -⟩ | hdone
      · exact h
      · split at hdone
        · obtain ⟨-, rfl⟩ := hdone
          exact h
        · obtain ⟨-, rfl⟩ := hdone
          exact h.link nofun
  | syncDir =>
      rcases hstep with ⟨rfl, -⟩ | ⟨-, rfl⟩
      · exact h
      · exact h.syncNames

theorem only_read (path : Name) : (read sha256 z path).Only (Tame sha256) := by
  refine only_bind (only_run trivial) fun a => ?_
  split
  · trivial
  · exact only_ofExcept _

theorem only_tally (files : List DirEntry) (entries used : Nat) :
    (tally files entries used).Only (Tame sha256) := by
  induction files generalizing entries used with
  | nil => trivial
  | cons f rest ih =>
      unfold tally
      split
      · trivial
      · refine only_bind (only_run trivial) fun _ => ?_
        split
        · trivial
        · exact ih _ _

theorem only_accept (q : Queue) (x : Delivery) : (Accept sha256 z q x).Only (Tame sha256) := by
  refine only_bind (only_ofExcept _) fun raw => only_bind (only_run trivial) fun _ =>
    only_bind (only_run trivial) fun _ => only_bind (only_attempt (only_read _)) fun old => ?_
  cases old with
  | ok old =>
      dsimp only
      split
      · exact only_run trivial
      · trivial
  | error e =>
      dsimp only
      split
      · trivial
      · refine only_bind (only_run trivial) fun files => only_bind (only_tally _ _ _) fun used => ?_
        split
        · trivial
        · refine only_bind (only_run trivial) fun made => only_onExit trivial ?_
          exact only_bind (only_onError trivial (only_run trivial)) fun _ =>
            only_bind (only_onError trivial (only_run trivial)) fun _ => only_bind (only_run trivial) fun _ =>
              only_bind (only_run (isBatch_name x)) fun _ => only_run trivial

theorem only_ack (x : Delivery) (verify : Option (Delivery → Except Failure Bool)) :
    (Ack sha256 z x verify).Only (Tame sha256) := by
  cases verify with
  | none => trivial
  | some verify =>
      refine only_bind (only_ofExcept _) fun ok => ?_
      split
      · trivial
      · refine only_bind (only_run trivial) fun _ => only_bind (only_attempt (only_read _)) fun old => ?_
        cases old with
        | error e =>
            dsimp only
            split
            · trivial
            · trivial
        | ok old =>
            dsimp only
            split
            · trivial
            · exact only_bind (only_run trivial) fun _ => only_run trivial

theorem only_recoverFiles (files : List DirEntry) : (recoverFiles sha256 z files).Only (Tame sha256) := by
  induction files with
  | nil => trivial
  | cons f rest ih =>
      refine only_bind (only_run trivial) fun _ => ?_
      split
      · refine only_bind (only_attempt (only_read _)) fun x => ?_
        cases x with
        | error e => trivial
        | ok x =>
            refine only_bind ?_ fun _ => ih
            refine only_bind (only_attempt (only_read _)) fun old => ?_
            cases old with
            | ok old =>
                dsimp only
                split
                · trivial
                · exact only_run trivial
            | error e =>
                dsimp only
                split
                · trivial
                · exact only_bind (only_run trivial) fun _ =>
                    only_bind (only_attempt (only_run trivial)) fun _ =>
                    only_bind (only_attempt (only_run trivial)) fun _ => only_bind (only_ofExcept _) fun _ =>
                      only_bind (only_ofExcept _) fun _ => only_run (isBatch_name x)
      · exact ih

theorem only_program (c : Call) : (c.program sha256 z).Only (Tame sha256) := by
  cases c with
  | accept q x => exact only_accept q x
  | ack x verify => exact only_ack x verify
  | recover =>
      exact only_bind (only_run trivial) fun _ => only_bind (only_run trivial) fun files =>
        only_bind (only_recoverFiles files) fun _ => only_run trivial

/-! ## Runs -/

/-- The invariant of the directory. -/
structure Kept (sha256 : List UInt8 → Vector UInt8 32) (z : Zlib) (d : Disk) : Prop where
  sound : Sound sha256 z d
  named : Named sha256 d

theorem kept_consumerLock (h : Kept sha256 z d) : Kept sha256 z d.consumerLock := by
  unfold Disk.consumerLock
  split
  · refine ⟨h.sound.create.link ?_, ?_⟩
    · -- the empty file under this name is not one that a delivery is stored in
      rintro i ⟨⟩
      exact ⟨Nat.lt_succ_self _, fun hbatch => absurd rfl hbatch.ne_consumer⟩
    · have hcreated : Named sha256 d.create := h.named.congr rfl rfl
      exact hcreated.link fun _ _ => .inr (.inr rfl)
  · exact h

/-- A call of the queue makes no other names on its way. -/
theorem wp_named (h : Named sha256 d) (c : Call) :
    wp Perform (Named sha256) (c.program sha256 z) (fun _ _ => True) d :=
  wp_only (only_program c) (fun _ _ _ _ hc h hstep => named_perform hc h hstep) h

theorem kept_step (hz : z.RoundTrips) {a : Act} (hstep : Steps sha256 z d a d') (h : Kept sha256 z d) :
    Kept sha256 z d' := by
  cases hstep with
  | queue hcall =>
      refine ⟨(hcall.keeps hz h.sound).1, ?_⟩
      cases hcall with
      | returned _ c r hexec =>
          exact wp_exec (wp_mono (wp_named h.named c) (fun _ => id) fun _ _ hI _ => hI) hexec
      | crashed d₁ _ c hstops hcrash => exact (wp_stops (wp_named h.named c) hstops).crash hcrash
  | locked => exact kept_consumerLock h
  | notLocked => exact h
  | index => exact h
  | crash hcrash => exact ⟨hcrash.sound h.sound, h.named.crash hcrash⟩

theorem kept_run (hz : z.RoundTrips) {as : List Act} (hrun : Run (Steps sha256 z) {} as d) : Kept sha256 z d :=
  hrun.invariant (Kept sha256 z) ⟨sound_empty, named_empty⟩ fun _ _ _ hstep => kept_step hz hstep

/-! ## What is stored -/

/-- The file of the name is the delivery. -/
def StoredAt (sha256 : List UInt8 → Vector UInt8 32) (z : Zlib) (d : Disk) (n : Name) (x : Delivery) : Prop :=
  ∃ i, d.lookup n = some i ∧ Unmarshal sha256 z (d.files i).bytes = .ok x ∧ x.name sha256 = n

open Classical in
/-- The names under which deliveries are stored. -/
noncomputable def stored (sha256 : List UInt8 → Vector UInt8 32) (z : Zlib) (d : Disk) : Finset Name :=
  d.names.keys.toFinset.filter fun n => ∃ x, StoredAt sha256 z d n x

theorem mem_stored {n : Name} : n ∈ stored sha256 z d ↔ ∃ x, StoredAt sha256 z d n x := by
  classical
  unfold stored
  rw [Finset.mem_filter, List.mem_toFinset]
  refine ⟨fun h => h.2, fun h => ⟨?_, h⟩⟩
  obtain ⟨x, i, hlookup, -⟩ := h
  exact AList.mem_keys.1 (AList.lookup_isSome.1 (Option.isSome_iff_exists.2 ⟨i, hlookup⟩))

/-- The bytes of the file of a name. -/
def sizeOf (d : Disk) (n : Name) : Nat := (d.lookup n).elim 0 fun i => (d.files i).bytes.length

/-- What is seen of the directory is what is stored. -/
structure Seen (sha256 : List UInt8 → Vector UInt8 32) (z : Zlib) (d : Disk) : Prop where
  pending : ∀ service generation, ∃ b,
    (b = true ↔ ∃ n x, StoredAt sha256 z d n x ∧ x.service = service ∧ x.generation = generation) ∧
      ∀ r, (∃ d', CrashLogic.Exec Works (ServicePending sha256 z service generation) d r d') ↔ r = .ok b
  totals : ∀ q modTime r d', CrashLogic.Exec Works (Inspect q modTime) d r d' →
    ∃ out, r = .ok out ∧ out.files = (stored sha256 z d).card ∧ out.bytes = ∑ n ∈ stored sha256 z d, sizeOf d n

/-! ## Calls that look -/

/-- A call that only looks. -/
def Looks : Cmd → Prop
  | .lock | .context | .list | .read _ => True
  | _ => False

theorem exists_works (d : Disk) (c : Cmd) (h : Looks c) : ∃ r d', Works d c r d' := by
  cases c with
  | lock => exact ⟨.ok (), d, ⟨rfl, ok_ne_error⟩, (), rfl⟩
  | context => exact ⟨.ok (), d, ⟨rfl, ok_ne_error⟩, (), rfl⟩
  | read path =>
      rcases hlookup : d.lookup path with _ | i
      · refine ⟨.error .notExist, d, .inr ⟨rfl, ?_⟩, .inl rfl⟩
        rw [hlookup]
      · refine ⟨.ok (d.files i).bytes, d, .inr ⟨rfl, ?_⟩, .inr ⟨_, rfl⟩⟩
        rw [hlookup]
  | list =>
      -- a listing with the sizes of the files there are
      refine ⟨.ok ((lockName :: d.names.keys).map fun n => ⟨n, true, sizeOf d n⟩), d,
        ⟨.inr ⟨rfl, _, rfl, ?_, ?_⟩, _, rfl, ?_⟩⟩
      · rw [List.map_map]
        exact (List.map_id _).symm ▸ .refl _
      · intro f hf i hi
        obtain ⟨n, -, rfl⟩ := List.mem_map.1 hf
        dsimp only at hi ⊢
        unfold sizeOf
        rw [Option.mem_def.1 hi]
        rfl
      · intro f hf
        obtain ⟨n, -, rfl⟩ := List.mem_map.1 hf
        rfl
  | createTemp | write | sync | close | openRW | rename | remove | syncDir => exact h.elim

theorem looks_inspect (q : Queue) (modTime : Name → Time) : (Inspect q modTime).Only Looks := by
  refine only_bind (only_run trivial) fun _ => only_bind (only_run trivial) fun entries => ?_
  generalize (⟨0, 0, q.maxBytes, none⟩ : Health) = out
  induction entries generalizing out with
  | nil => trivial
  | cons entry rest ih =>
      refine only_bind (only_run trivial) fun _ => ?_
      split
      · exact ih out
      · split
        · trivial
        · exact ih _

theorem looks_servicePending (service : List UInt8) (generation : UInt64) :
    (ServicePending sha256 z service generation).Only Looks := by
  refine only_bind (only_run trivial) fun _ => only_bind (only_run trivial) fun files => ?_
  induction files with
  | nil => trivial
  | cons file rest ih =>
      refine only_bind (only_run trivial) fun _ => ?_
      split
      · exact ih
      · split
        · trivial
        · refine only_bind (only_bind (only_run trivial) fun a => ?_) fun x => ?_
          · split
            · trivial
            · exact only_ofExcept _
          · split
            · trivial
            · exact ih

theorem wp_works {α : Type} {c : Cmd} (hc : c = .lock ∨ c = .context) {f : Reply c → Program α}
    {Q : Except Failure α → Disk → Prop} (h : ∀ a, wp Works (· = d) (f a) Q d) :
    wp Works (· = d) (call c >>= f) Q d := by
  rcases hc with rfl | rfl
  · refine ⟨rfl, ?_⟩
    rintro r d' ⟨⟨rfl, -⟩, a, rfl⟩
    exact h a
  · refine ⟨rfl, ?_⟩
    rintro r d' ⟨⟨rfl, -⟩, a, rfl⟩
    exact h a

/-- The listing of the directory. -/
structure Lists (d : Disk) (entries : List DirEntry) : Prop where
  names : (entries.map DirEntry.name).Perm (lockName :: d.names.keys)
  regular : ∀ f ∈ entries, f.regular = true
  sizes : ∀ f ∈ entries, ∀ i ∈ d.lookup f.name, f.size = (d.files i).bytes.length

theorem wp_lists {α : Type} {f : List DirEntry → Program α} {Q : Except Failure α → Disk → Prop}
    (h : ∀ entries, Lists d entries → wp Works (· = d) (f entries) Q d) :
    wp Works (· = d) (call .list >>= f) Q d := by
  refine ⟨rfl, ?_⟩
  rintro r d' ⟨⟨-, e, -, rfl⟩ | ⟨rfl, entries, rfl, hnames, hsizes⟩, entries', hok, hregular⟩
  · cases hok
  · obtain rfl := Except.ok.inj hok
    exact h entries ⟨hnames, hregular, hsizes⟩

theorem length_of_unmarshal {raw : List UInt8} {x : Delivery} (h : Unmarshal sha256 z raw = .ok x) :
    raw.length ≤ maxPayload + 1024 := by
  unfold Unmarshal at h
  rw [Check.seq_eq_ok, Check.failIf_eq_ok, not_or, not_or, not_lt, not_lt] at h
  exact h.1.2.1

theorem wp_stored {n : Name} {x : Delivery} (h : StoredAt sha256 z d n x) :
    wp Works (· = d) (read sha256 z n) (fun r _ => r = .ok x) d := by
  obtain ⟨i, hlookup, hread, -⟩ := h
  refine ⟨rfl, ?_⟩
  rintro r d' ⟨⟨-, e, he, rfl⟩ | ⟨rfl, hfile⟩, hanswer⟩
  · rcases hanswer with hmissing | ⟨a, ha⟩
    · exact absurd (Except.error.inj hmissing) he
    · cases ha
  · rw [hlookup] at hfile
    dsimp only at hfile
    rw [hfile]
    change wp Works _ (if maxPayload + 1024 < (d'.files i).bytes.length then _ else _) _ d'
    rw [if_neg (not_lt.2 (length_of_unmarshal hread)), hread]
    exact ⟨rfl, rfl⟩

/-! ## The loops -/

/-- What `Inspect` counts: everything but the lock of the directory. -/
theorem wp_inspectFiles (modTime : Name → Time) {entries : List DirEntry}
    (hregular : ∀ f ∈ entries, f.regular = true)
    (out : Health) :
    wp Works (· = d) (inspectFiles modTime entries out) (fun r _ => ∃ out', r = .ok out' ∧
      out'.files = out.files + (entries.filter (·.name ≠ lockName)).length ∧
        out'.bytes = out.bytes + ((entries.filter (·.name ≠ lockName)).map DirEntry.size).sum) d := by
  induction entries generalizing out with
  | nil => exact wp_pure rfl ⟨out, rfl, rfl, rfl⟩
  | cons entry rest ih =>
      have hrest : ∀ f ∈ rest, f.regular = true := fun f hf => hregular f (List.mem_cons_of_mem _ hf)
      unfold inspectFiles
      refine wp_works (.inr rfl) fun _ => ?_
      by_cases hlock : entry.name = lockName
      · rw [if_pos hlock, List.filter_cons_of_neg (by simp [hlock])]
        exact ih hrest out
      · rw [if_neg hlock, if_neg (by rw [hregular entry List.mem_cons_self]; decide),
          List.filter_cons_of_pos (by simp [hlock]), List.length_cons, List.map_cons, List.sum_cons]
        refine wp_mono (ih hrest _) (fun _ => id) ?_
        rintro r d' - ⟨out', hr, hfiles, hbytes⟩
        refine ⟨out', hr, ?_, ?_⟩
        · rw [hfiles]
          change out.files + 1 + _ = _
          omega
        · rw [hbytes]
          change out.bytes + entry.size + _ = _
          omega

/-- What `ServicePending` finds among deliveries. -/
theorem wp_pendingFiles (service : List UInt8) (generation : UInt64) {files : List DirEntry}
    (hfiles : ∀ f ∈ files, f.name ≠ lockName → ∃ x, StoredAt sha256 z d f.name x) :
    wp Works (· = d) (pendingFiles sha256 z service generation files) (fun r _ => ∃ b, r = .ok b ∧
      (b = true ↔ ∃ f ∈ files, f.name ≠ lockName ∧
        ∃ x, StoredAt sha256 z d f.name x ∧ x.service = service ∧ x.generation = generation)) d := by
  induction files with
  | nil => exact wp_pure rfl ⟨false, rfl, by simp⟩
  | cons file rest ih =>
      have ih := ih fun f hf => hfiles f (List.mem_cons_of_mem _ hf)
      unfold pendingFiles
      refine wp_works (.inr rfl) fun _ => ?_
      by_cases hlock : file.name = lockName
      · rw [if_pos hlock]
        refine wp_mono ih (fun _ => id) ?_
        rintro r d' - ⟨b, hr, hb⟩
        refine ⟨b, hr, hb.trans ?_⟩
        rw [List.exists_mem_cons_iff]
        exact ⟨.inr, fun h => h.resolve_left fun hfile => hfile.1 hlock⟩
      · obtain ⟨x, hx⟩ := hfiles file List.mem_cons_self hlock
        have hbatch : IsBatch sha256 file.name := by
          obtain ⟨i, -, -, hname⟩ := hx
          exact ⟨x, hname.symm⟩
        rw [if_neg hlock, if_neg hbatch.not_pending]
        refine wp_bind (wp_stored hx) ?_ ?_
        · rintro y d' rfl hy
          obtain rfl := Except.ok.inj hy
          by_cases hmatch : y.service = service ∧ y.generation = generation
          · rw [if_pos hmatch]
            refine wp_pure rfl ⟨true, rfl, fun _ => ?_, fun _ => rfl⟩
            exact ⟨file, List.mem_cons_self, hlock, y, hx, hmatch⟩
          · rw [if_neg hmatch]
            refine wp_mono ih (fun _ => id) ?_
            rintro r d'' - ⟨b, hr, hb⟩
            refine ⟨b, hr, hb.trans ?_⟩
            rw [List.exists_mem_cons_iff]
            refine ⟨.inr, fun h => h.resolve_left ?_⟩
            rintro ⟨-, y', ⟨i', hlookup', hread', -⟩, hmatch'⟩
            obtain ⟨i, hlookup, hread, -⟩ := hx
            rw [hlookup] at hlookup'
            obtain rfl := Option.some.inj hlookup'
            rw [hread] at hread'
            obtain rfl := Except.ok.inj hread'
            exact hmatch hmatch'
        · rintro e d' - he
          cases he

/-! ## The totals -/

theorem Kept.not_mem_lock (h : Kept sha256 z d) : lockName ∉ d.names.keys := by
  intro hmem
  obtain ⟨i, hi⟩ := Option.isSome_iff_exists.1 (AList.lookup_isSome.2 (AList.mem_keys.2 hmem))
  exact (h.named lockName i (.inl hi)).ne_lock rfl

theorem Lists.others {entries : List DirEntry} (hlists : Lists d entries) (h : Kept sha256 z d) :
    ((entries.filter (·.name ≠ lockName)).map DirEntry.name).Perm d.names.keys := by
  have hfilter : (entries.filter (·.name ≠ lockName)).map DirEntry.name =
      (entries.map DirEntry.name).filter (· ≠ lockName) := by
    rw [List.filter_map]
    rfl
  have hkeys : (lockName :: d.names.keys).filter (· ≠ lockName) = d.names.keys := by
    rw [List.filter_cons_of_neg (by simp)]
    refine List.filter_eq_self.2 fun n hn => decide_eq_true ?_
    rintro rfl
    exact h.not_mem_lock hn
  rw [hfilter, ← hkeys]
  exact hlists.names.filter _

theorem Lists.sum {entries : List DirEntry} (hlists : Lists d entries) (h : Kept sha256 z d) :
    ((entries.filter (·.name ≠ lockName)).map DirEntry.size).sum = (d.names.keys.map (sizeOf d)).sum := by
  have hothers := hlists.others h
  rw [← (hothers.map (sizeOf d)).sum_eq, List.map_map]
  refine congrArg List.sum (List.map_congr_left fun f hf => ?_)
  have hname : f.name ∈ d.names.keys := hothers.mem_iff.1 (List.mem_map_of_mem hf)
  obtain ⟨i, hi⟩ := Option.isSome_iff_exists.1 (AList.lookup_isSome.2 (AList.mem_keys.2 hname))
  have hsize := hlists.sizes f (List.mem_of_mem_filter hf) i hi
  have hlookup : d.lookup f.name = some i := hi
  unfold Function.comp sizeOf
  rw [hsize, hlookup]
  rfl

/-- Every file of the directory is counted. -/
theorem inspect_counts (h : Kept sha256 z d) {q : Queue} {modTime : Name → Time} {r : Except Failure Health}
    (hexec : CrashLogic.Exec Works (Inspect q modTime) d r d') :
    ∃ out, r = .ok out ∧ out.files = d.names.keys.length ∧ out.bytes = (d.names.keys.map (sizeOf d)).sum := by
  have hwp : wp Works (· = d) (Inspect q modTime) (fun r _ => ∃ out, r = .ok out ∧
      out.files = d.names.keys.length ∧ out.bytes = (d.names.keys.map (sizeOf d)).sum) d := by
    refine wp_works (.inl rfl) fun _ => wp_lists fun entries hlists => ?_
    refine wp_mono (wp_inspectFiles modTime hlists.regular _) (fun _ => id) ?_
    rintro r d' - ⟨out, hr, hfiles, hbytes⟩
    refine ⟨out, hr, ?_, ?_⟩
    · rw [hfiles, ← (hlists.others h).length_eq, List.length_map]
      exact Nat.zero_add _
    · rw [hbytes, hlists.sum h]
      exact Nat.zero_add _
  exact wp_exec hwp hexec

/-! ## The theorem -/

/-- Every file next to the lock of the directory is a delivery's. -/
def Clean (d : Disk) : Prop := ∀ n, n = consumerName ∨ pendingPrefix <+: n → d.lookup n = none

theorem Kept.stored_of_clean (h : Kept sha256 z d) (hclean : Clean d) {n : Name} (hn : n ∈ d.names.keys) :
    ∃ x, StoredAt sha256 z d n x := by
  obtain ⟨i, hi⟩ := Option.isSome_iff_exists.1 (AList.lookup_isSome.2 (AList.mem_keys.2 hn))
  have hlookup : d.lookup n = some i := hi
  have hbatch : IsBatch sha256 n := by
    rcases h.named n i (.inl hlookup) with hbatch | hpending | hconsumer
    · exact hbatch
    · rw [hclean n (.inr hpending)] at hlookup
      cases hlookup
    · rw [hclean n (.inl hconsumer)] at hlookup
      cases hlookup
  obtain ⟨-, x, hread, hname⟩ := h.sound.stored n i hbatch (hlookup ▸ h.sound.current n)
  exact ⟨x, i, hlookup, hread, hname⟩

theorem StoredAt.mem_keys {n : Name} {x : Delivery} (h : StoredAt sha256 z d n x) : n ∈ d.names.keys := by
  obtain ⟨i, hlookup, -⟩ := h
  exact AList.mem_keys.1 (AList.lookup_isSome.1 (Option.isSome_iff_exists.2 ⟨i, hlookup⟩))

theorem stored_subset : stored sha256 z d ⊆ d.names.keys.toFinset := by
  intro n hn
  obtain ⟨x, hx⟩ := mem_stored.1 hn
  exact List.mem_toFinset.2 hx.mem_keys

theorem card_keys (d : Disk) : d.names.keys.toFinset.card = d.names.keys.length :=
  List.toFinset_card_of_nodup d.names.keys_nodup

theorem seen_of_clean (h : Kept sha256 z d) (hclean : Clean d) : Seen sha256 z d := by
  have hstored : stored sha256 z d = d.names.keys.toFinset := by
    refine stored_subset.antisymm fun n hn => ?_
    exact mem_stored.2 (h.stored_of_clean hclean (List.mem_toFinset.1 hn))
  constructor
  · intro service generation
    have hwp : wp Works (· = d) (ServicePending sha256 z service generation) (fun r _ => ∃ b, r = .ok b ∧
        (b = true ↔ ∃ n x, StoredAt sha256 z d n x ∧ x.service = service ∧ x.generation = generation)) d := by
      refine wp_works (.inl rfl) fun _ => wp_lists fun files hlists => ?_
      have hmem : ∀ n, n ≠ lockName → (n ∈ files.map DirEntry.name ↔ n ∈ d.names.keys) := by
        intro n hn
        rw [hlists.names.mem_iff, List.mem_cons]
        exact ⟨fun hin => hin.resolve_left hn, .inr⟩
      have hfiles : ∀ f ∈ files, f.name ≠ lockName → ∃ x, StoredAt sha256 z d f.name x := fun f hf hlock =>
        h.stored_of_clean hclean ((hmem _ hlock).1 (List.mem_map_of_mem hf))
      refine wp_mono (wp_pendingFiles service generation hfiles) (fun _ => id) ?_
      rintro r d' - ⟨b, hr, hb⟩
      refine ⟨b, hr, hb.trans ⟨?_, ?_⟩⟩
      · rintro ⟨f, -, -, x, hx, hmatch⟩
        exact ⟨f.name, x, hx, hmatch⟩
      · rintro ⟨n, x, hx, hmatch⟩
        have hlock : n ≠ lockName := by
          rintro rfl
          exact h.not_mem_lock hx.mem_keys
        obtain ⟨f, hf, rfl⟩ := List.mem_map.1 ((hmem n hlock).2 hx.mem_keys)
        exact ⟨f, hf, hlock, x, hx, hmatch⟩
    obtain ⟨r, d', hexec⟩ := CrashLogic.exists_exec (looks_servicePending service generation) exists_works d
    obtain ⟨b, rfl, hb⟩ := wp_exec hwp hexec
    refine ⟨b, hb, fun r => ⟨?_, ?_⟩⟩
    · rintro ⟨d'', hexec'⟩
      obtain ⟨b', rfl, hb'⟩ := wp_exec hwp hexec'
      rw [Bool.eq_iff_iff.2 (hb'.trans hb.symm)]
    · rintro rfl
      exact ⟨d', hexec⟩
  · intro q modTime r d' hexec
    obtain ⟨out, hr, hfiles, hbytes⟩ := inspect_counts h hexec
    refine ⟨out, hr, ?_, ?_⟩
    · rw [hfiles, hstored, card_keys]
    · rw [hbytes, hstored, List.sum_toFinset _ d.names.keys_nodup]

theorem clean_of_seen (h : Kept sha256 z d) (hseen : Seen sha256 z d) : Clean d := by
  intro n hn
  obtain ⟨r, d', hexec⟩ := CrashLogic.exists_exec (looks_inspect ⟨0⟩ fun _ => ⟨0, 0⟩) exists_works d
  obtain ⟨out, hr, hfiles, -⟩ := inspect_counts h hexec
  obtain ⟨out', hr', hfiles', -⟩ := hseen.totals _ _ _ _ hexec
  obtain rfl := Except.ok.inj (hr.symm.trans hr')
  have hall : stored sha256 z d = d.names.keys.toFinset := by
    refine Finset.eq_of_subset_of_card_le stored_subset ?_
    rw [card_keys, ← hfiles, hfiles']
  rcases hlookup : d.lookup n with _ | i
  · rfl
  · have hmem : n ∈ stored sha256 z d := by
      rw [hall, List.mem_toFinset]
      exact AList.mem_keys.1 (AList.lookup_isSome.1 (Option.isSome_iff_exists.2 ⟨i, hlookup⟩))
    obtain ⟨x, -, -, -, hname⟩ := mem_stored.1 hmem
    have hbatch : IsBatch sha256 n := ⟨x, hname.symm⟩
    rcases hn with hconsumer | hpending
    · exact absurd hconsumer hbatch.ne_consumer
    · exact absurd hpending hbatch.not_pending

/-- In every directory of a queue, `ServicePending` answers for every service and generation
whether a delivery of it is stored, and the totals of `Inspect` are those of the stored deliveries,
if and only if no consumer's lock and no staging file is there. -/
theorem seen_iff_clean (hz : z.RoundTrips) {as : List Act} (hrun : Run (Steps sha256 z) {} as d) :
    Seen sha256 z d ↔ Clean d :=
  ⟨clean_of_seen (kept_run hz hrun), seen_of_clean (kept_run hz hrun)⟩

/-! ## The lock of a consumer -/

/-- The empty file of the lock is read as a delivery. -/
theorem wp_pendingFiles_consumer {i : Nat} (hlookup : d.lookup consumerName = some i)
    (hempty : (d.files i).bytes = [])
    (service : List UInt8) (generation : UInt64) {files : List DirEntry}
    (hfiles : ∀ f ∈ files, f.name = lockName ∨ f.name = consumerName)
    (hmem : ∃ f ∈ files, f.name = consumerName) :
    wp Works (· = d) (pendingFiles sha256 z service generation files)
      (fun r _ => r = .error (.text "invalid spool header")) d := by
  have hread : wp Works (· = d) (read sha256 z consumerName)
      (fun r _ => r = .error (.text "invalid spool header")) d := by
    refine ⟨rfl, ?_⟩
    rintro r d' ⟨⟨-, e, he, rfl⟩ | ⟨rfl, hfile⟩, hanswer⟩
    · rcases hanswer with hmissing | ⟨a, ha⟩
      · exact absurd (Except.error.inj hmissing) he
      · cases ha
    · rw [hlookup] at hfile
      dsimp only at hfile
      rw [hfile, hempty]
      exact ⟨rfl, rfl⟩
  induction files with
  | nil =>
      obtain ⟨f, hf, -⟩ := hmem
      exact absurd hf List.not_mem_nil
  | cons file rest ih =>
      unfold pendingFiles
      refine wp_works (.inr rfl) fun _ => ?_
      rcases hfiles file List.mem_cons_self with hlock | hconsumer
      · rw [if_pos hlock]
        refine ih (fun f hf => hfiles f (List.mem_cons_of_mem _ hf)) ?_
        obtain ⟨f, hf, hname⟩ := hmem
        rcases List.mem_cons.1 hf with rfl | hrest
        · rw [hlock] at hname
          exact absurd hname (by decide)
        · exact ⟨f, hrest, hname⟩
      · rw [hconsumer, if_neg (by decide), if_neg (by decide)]
        refine wp_bind hread ?_ ?_
        · rintro x d' - hx
          cases hx
        · rintro e d' - he
          rw [Except.error.inj he]

theorem run_consumerLock : Run (Steps noDigest unpacked) {} [.consumerLock] (Disk.consumerLock {}) :=
  .cons (.locked {}) (.nil _)

/-- A directory in which a consumer has started and nothing is stored: every `ServicePending`
fails, and `Inspect` counts a file. -/
theorem consumer_breaks_pending : Run (Steps noDigest unpacked) {} [.consumerLock] (Disk.consumerLock {}) ∧
    stored noDigest unpacked (Disk.consumerLock {}) = ∅ ∧
      (∀ service generation r d', CrashLogic.Exec Works (ServicePending noDigest unpacked service generation)
        (Disk.consumerLock {}) r d' → r = .error (.text "invalid spool header")) ∧
        ∀ q modTime r d', CrashLogic.Exec Works (Inspect q modTime) (Disk.consumerLock {}) r d' →
          ∃ out, r = .ok out ∧ out.files = 1 := by
  have hkept := kept_run unpacked_roundTrips run_consumerLock
  have hkeys : (Disk.consumerLock {}).names.keys = [consumerName] := by decide
  refine ⟨run_consumerLock, ?_, ?_, ?_⟩
  · refine Finset.eq_empty_of_forall_notMem fun n hn => ?_
    obtain ⟨x, hx⟩ := mem_stored.1 hn
    have hmem := hx.mem_keys
    obtain ⟨-, -, -, hname⟩ := hx
    rw [hkeys, List.mem_singleton] at hmem
    have hbatch : IsBatch noDigest n := ⟨x, hname.symm⟩
    exact absurd hmem hbatch.ne_consumer
  · intro service generation r d' hexec
    have hwp : wp Works (· = Disk.consumerLock {}) (ServicePending noDigest unpacked service generation)
        (fun r _ => r = .error (.text "invalid spool header")) (Disk.consumerLock {}) := by
      refine wp_works (.inl rfl) fun _ => wp_lists fun files hlists => ?_
      have hnames := hlists.names
      rw [hkeys] at hnames
      refine wp_pendingFiles_consumer (i := 0) (by decide) (by decide) service generation ?_ ?_
      · intro f hf
        have hname := hnames.mem_iff.1 (List.mem_map_of_mem hf)
        rw [List.mem_cons, List.mem_singleton] at hname
        exact hname
      · exact List.mem_map.1 (hnames.mem_iff.2 (List.mem_cons_of_mem _ List.mem_cons_self))
    have hfailed := wp_exec hwp hexec
    exact hfailed
  · intro q modTime r d' hexec
    obtain ⟨out, hr, hfiles, -⟩ := inspect_counts hkept hexec
    refine ⟨out, hr, ?_⟩
    rw [hfiles, hkeys]
    rfl

theorem seen_iff_clean_consumerLock :
    Seen noDigest unpacked {} ∧ ¬ Seen noDigest unpacked (Disk.consumerLock {}) := by
  constructor
  · exact (seen_iff_clean unpacked_roundTrips (.nil _)).2 fun _ _ => rfl
  · intro hseen
    have hclean := (seen_iff_clean unpacked_roundTrips run_consumerLock).1 hseen
    exact absurd (hclean consumerName (.inl rfl)) (by decide)

end MarketInfo.Spool
