import MarketInfo.Spool.DiskInvariant

/-! # The spool is durable

What `Accept`, `Ack` and `Recover` leave of the deliveries of a directory, whether they
return or a crash stops them.
-/

namespace MarketInfo.Spool

open CrashLogic (Prog wp wp_mono wp_pure wp_fail wp_ofExcept wp_run wp_bind wp_attempt wp_bind_attempt
  wp_onExit wp_onError wp_exec wp_stops)
open CrashLogic.Prog (attempt ofExcept onExit onError)

variable {sha256 : List UInt8 → Vector UInt8 32} {z : Zlib} {d₀ d d' : Disk} {I : Disk → Prop}

theorem error_ne_ok {α : Type} {e : Failure} {a : α} {P : Prop} (h : (.error e : Except Failure α) = .ok a) :
    P := by
  cases h

theorem ok_ne_error {α : Type} {e : Failure} {a : α} : (.ok a : Except Failure α) ≠ .error e := by
  intro h
  cases h

/-! ## Calls that change nothing -/

/-- The file that is read, or none. -/
theorem wp_read {path : Name} (hI : I d) {Q : Except Failure Delivery → Disk → Prop}
    (hmissing : d.lookup path = none → Q (.error .notExist) d)
    (hfound : ∀ i x, d.lookup path = some i → Unmarshal sha256 z (d.files i).bytes = .ok x → Q (.ok x) d)
    (hfailed : ∀ e, e ≠ .notExist → Q (.error e) d) :
    wp Perform I (read sha256 z path) Q d := by
  refine wp_bind (wp_run (Q := fun r d' => d' = d ∧ match r with
    | .ok a => ∃ i, d.lookup path = some i ∧ a = (d.files i).bytes
    | .error e => e = .notExist → d.lookup path = none) hI ?_) ?_ ?_
  · intro r d' hread
    rcases hread with ⟨rfl, e, he, rfl⟩ | ⟨rfl, hread⟩
    · exact ⟨hI, rfl, fun heq => absurd heq he⟩
    · rcases hlookup : d'.lookup path with _ | i
      · rw [hlookup] at hread
        dsimp only at hread
        rw [hread]
        exact ⟨hI, rfl, fun _ => rfl⟩
      · rw [hlookup] at hread
        dsimp only at hread
        rw [hread]
        exact ⟨hI, rfl, i, rfl, rfl⟩
  · rintro a d' - ⟨rfl, i, hi, rfl⟩
    split
    · exact wp_fail hI (hfailed _ (fun h => Failure.noConfusion h))
    · refine wp_ofExcept hI ?_
      rcases hread : Unmarshal sha256 z (d'.files i).bytes with e | x
      · exact hfailed _ (fun h => Failure.noConfusion h)
      · exact hfound i x hi hread
  · rintro e d' - ⟨rfl, he⟩
    by_cases hmissed : e = .notExist
    · rw [hmissed]
      exact hmissing (he hmissed)
    · exact hfailed e hmissed

theorem wp_unit {c : Cmd} (hc : c = .lock ∨ c = .context ∨ ∃ f, c = .close f) (hI : I d) :
    wp Perform I (call c) (fun _ d' => d' = d) d := by
  refine wp_run hI fun r d' hstep => ?_
  have hsame : d' = d := by
    rcases hc with rfl | rfl | ⟨f, rfl⟩
    · exact hstep.1
    · exact hstep.1
    · exact hstep.1
  rw [hsame]
  exact ⟨hI, rfl⟩

/-- A call that changes nothing, then the rest. -/
theorem wp_skip {α : Type} {c : Cmd} (hc : c = .lock ∨ c = .context ∨ ∃ f, c = .close f)
    (hI : I d) {f : Reply c → Program α} {Q : Except Failure α → Disk → Prop}
    (hnext : ∀ a, wp Perform I (f a) Q d) (hfailed : ∀ e, Q (.error e) d) :
    wp Perform I (call c >>= f) Q d := by
  refine wp_bind (wp_unit hc hI) ?_ ?_
  · rintro a d' - rfl
    exact hnext a
  · rintro e d' - rfl
    exact hfailed e

theorem wp_tally (files : List DirEntry) (entries used : Nat) (hI : I d) :
    wp Perform I (tally files entries used) (fun _ d' => d' = d) d := by
  induction files generalizing entries used with
  | nil => exact wp_pure hI rfl
  | cons f rest ih =>
      unfold tally
      split
      · exact wp_fail hI rfl
      · refine wp_skip (.inr (.inl rfl)) hI (fun _ => ?_) fun _ => rfl
        split
        · exact wp_fail hI rfl
        · exact ih _ _

theorem wp_list (hI : I d) :
    wp Perform I (call .list) (fun r d' => d' = d ∧ ∀ files, r = .ok files →
      ∀ n i, d.lookup n = some i → ∃ f ∈ files, f.name = n) d := by
  refine wp_run hI fun r d' hstep => ?_
  rcases hstep with ⟨rfl, e, -, rfl⟩ | ⟨rfl, files, rfl, hperm, -⟩
  · exact ⟨hI, rfl, fun _ => error_ne_ok⟩
  · refine ⟨hI, rfl, ?_⟩
    rintro _ ⟨rfl⟩ n i hlookup
    have hkey : n ∈ d'.names.keys := AList.lookup_isSome.1 (by
      rw [show d'.names.lookup n = some i from hlookup]
      rfl)
    obtain ⟨f, hf, hname⟩ := List.mem_map.1 (hperm.mem_iff.2 (List.mem_cons_of_mem _ hkey))
    exact ⟨f, hf, hname⟩

/-! ## Accept -/

theorem Same.name {a b : Delivery} (h : Same sha256 a b) : a.name sha256 = b.name sha256 := by
  obtain ⟨-, -, ⟨hdatabase, hkind, hid, -⟩, -⟩ := h
  unfold Delivery.name
  rw [hdatabase, hkind, hid]

/-- A call whose file is closed if it fails. -/
theorem wp_closing {f : Nat} {c : Cmd} {P : Disk → Prop} (hI : Keeps sha256 z d₀ d)
    (h : ∀ r d', Perform d c r d' → Keeps sha256 z d₀ d' ∧ ∀ a, r = .ok a → P d') :
    wp Perform (Keeps sha256 z d₀) (onError (.close f) (call c)) (fun r d' => ∀ a, r = .ok a → P d') d := by
  refine wp_onError (wp_run (Q := fun r d' => ∀ a, r = .ok a → P d') hI h) ?_ ?_
  · intro a d' _ hP
    exact hP
  · rintro e d' r d'' hI' - hclose
    obtain ⟨rfl, -⟩ : d'' = d' ∧ _ := hclose
    exact ⟨hI', fun _ => error_ne_ok⟩

/-- A synced file that reads as a delivery is renamed to its name. -/
theorem Keeps.rename {x old : Delivery} {path : Name} {i : Nat} (hI : Keeps sha256 z d₀ d)
    (hpath : pendingPrefix <+: path) (hlookup : d.lookup path = some i)
    (hfree : d.lookup (x.name sha256) = none) (hsynced : (d.files i).synced = true)
    (hold : Unmarshal sha256 z (d.files i).bytes = .ok old) (hsame : Same sha256 old x) :
    Keeps sha256 z d₀ ((d.link (x.name sha256) (some i)).link path none) ∧
      Held sha256 z x ((d.link (x.name sha256) (some i)).link path none) := by
  have hlinked : Sound sha256 z (d.link (x.name sha256) (some i)) := by
    refine hI.sound.link ?_
    rintro _ ⟨rfl⟩
    exact ⟨hI.sound.lt hlookup, fun _ => ⟨hsynced, old, hold, hsame.name⟩⟩
  have hmoved : Sound sha256 z ((d.link (x.name sha256) (some i)).link path none) := hlinked.unlink path
  have hkept := keeps_link hI.sound hlinked fun _ => hfree
  have hgone := keeps_link hlinked hmoved fun hbatch => absurd hpath hbatch.not_pending
  refine ⟨(hI.trans hkept).trans hgone, i, old, ?_, ?_, hsame⟩
  · rw [Disk.lookup_link_ne _ _ ((isBatch_name x).ne hpath), Disk.lookup_link_self]
  · rw [Disk.files_link, Disk.files_link]
    exact hold

theorem wp_stage {x old : Delivery} {raw : List UInt8} {tmp : Name} {f : Nat}
    (htmp : pendingPrefix <+: tmp) (hI : Keeps sha256 z d₀ d) (hlookup : d.lookup tmp = some f)
    (hprivate : Private sha256 d f) (hempty : (d.files f).bytes = [])
    (hfree : d.lookup (x.name sha256) = none) (hold : Unmarshal sha256 z raw = .ok old)
    (hsame : Same sha256 old x) :
    wp Perform (Keeps sha256 z d₀) (stage raw (x.name sha256) tmp f)
      (fun r d' => r = .ok () → Durable sha256 z x d') d := by
  refine wp_bind (wp_closing (P := fun d' => d' = d.append f raw) hI ?_) ?_ fun _ _ _ _ => error_ne_ok
  · intro r d' hwrite
    rcases hwrite with ⟨e, n, -, rfl, rfl⟩ | ⟨rfl, rfl⟩
    · exact ⟨hI.trans (keeps_append hI.sound hprivate _), fun _ => error_ne_ok⟩
    · exact ⟨hI.trans (keeps_append hI.sound hprivate _), fun _ _ => rfl⟩
  rintro ⟨⟩ d₁ hI₁ hwritten
  obtain rfl := hwritten () rfl
  refine wp_bind (wp_closing (P := fun d' => d' = (d.append f raw).syncFile f) hI₁ ?_) ?_ fun _ _ _ _ => error_ne_ok
  · intro r d' hsync
    rcases hsync with ⟨rfl, e, -, rfl⟩ | ⟨rfl, rfl⟩
    · exact ⟨hI₁, fun _ => error_ne_ok⟩
    · exact ⟨hI₁.trans (keeps_syncFile hI₁.sound f), fun _ _ => rfl⟩
  rintro ⟨⟩ d₂ hI₂ hsynced
  obtain rfl := hsynced () rfl
  refine wp_skip (.inr (.inr ⟨f, rfl⟩)) hI₂ (fun _ => ?_) fun _ => error_ne_ok
  -- the file has all of the envelope now, and it is synced
  have hfile : ((d.append f raw).syncFile f).files f = ⟨raw, true⟩ := by
    unfold Disk.syncFile Disk.append
    dsimp only
    rw [Function.update_self, Function.update_self, hempty]
    rfl
  have hname : ((d.append f raw).syncFile f).lookup tmp = some f := hlookup
  obtain ⟨hrenamed, hheld⟩ := hI₂.rename htmp hname hfree (by rw [hfile]) (by rw [hfile]; exact hold) hsame
  refine wp_bind (wp_run (Q := fun r d' => ∀ a, r = .ok a → Held sha256 z x d') hI₂ ?_) ?_ fun _ _ _ _ => error_ne_ok
  · intro r d' hstep
    rcases hstep with ⟨rfl, e, -, rfl⟩ | hstep
    · exact ⟨hI₂, fun _ => error_ne_ok⟩
    · rw [hname] at hstep
      obtain ⟨rfl, rfl⟩ := hstep
      exact ⟨hrenamed, fun _ _ => hheld⟩
  rintro ⟨⟩ d₃ hI₃ hthere
  refine wp_run hI₃ fun r d' hstep => ?_
  rcases hstep with ⟨rfl, e, -, rfl⟩ | ⟨rfl, rfl⟩
  · exact ⟨hI₃, error_ne_ok⟩
  · exact ⟨hI₃.trans (keeps_syncNames hI₃.sound), fun _ => (hthere () rfl).syncNames⟩

/-- What `createTemp` makes is no delivery's. -/
theorem keeps_createTemp {tmp : Name} (hI : Keeps sha256 z d₀ d) (htmp : pendingPrefix <+: tmp) :
    Keeps sha256 z d₀ (d.create.link tmp (some d.next)) ∧
      Private sha256 (d.create.link tmp (some d.next)) d.next := by
  have hlinked : Sound sha256 z (d.create.link tmp (some d.next)) := by
    refine hI.sound.create.link ?_
    rintro _ ⟨rfl⟩
    exact ⟨Nat.lt_succ_self _, fun hbatch => absurd htmp hbatch.not_pending⟩
  refine ⟨(hI.trans (keeps_create hI.sound)).trans
    (keeps_link hI.sound.create hlinked fun hbatch => absurd htmp hbatch.not_pending), ?_⟩
  intro n hn hmem
  rw [Disk.stable_link_ne _ _ (hn.ne htmp)] at hmem
  exact absurd (hI.sound.bounded n d.next hmem) (lt_irrefl _)

theorem same_of_valid {x : Delivery} (h : Valid sha256 x) : Same sha256 x.inUTC x := by
  refine ⟨validate_eq_ok.2 h.inUTC, validate_eq_ok.2 h, ⟨rfl, rfl, rfl, rfl, rfl, ?_, rfl, rfl, rfl⟩, rfl⟩
  rfl

/-- `Accept` keeps every delivery, and its own is durable once it returns without an error. -/
theorem wp_accept (hz : z.RoundTrips) (hs : Sound sha256 z d) (q : Queue) (x : Delivery) :
    wp Perform (Keeps sha256 z d) (Accept sha256 z q x)
      (fun r d' => r = .ok () → Durable sha256 z x d') d := by
  have hI := Keeps.refl hs
  unfold Accept
  rcases hraw : MarshalCompressed sha256 z x with err | raw
  · exact wp_bind (wp_ofExcept (Q := fun r _ => ∃ e, r = .error e) hI ⟨_, rfl⟩)
      (by rintro a d' - ⟨e, he⟩; cases he) fun _ _ _ _ => error_ne_ok
  refine wp_bind (wp_ofExcept (Q := fun r d' => r = .ok raw ∧ d' = d) hI ⟨rfl, rfl⟩) ?_ fun _ _ _ _ => error_ne_ok
  rintro a d' - ⟨hok, rfl⟩
  obtain rfl := (Except.ok.inj hok).symm
  refine wp_skip (.inl rfl) hI (fun _ => ?_) fun _ => error_ne_ok
  refine wp_skip (.inr (.inl rfl)) hI (fun _ => ?_) fun _ => error_ne_ok
  refine wp_bind_attempt (wp_read (Q := fun r d₁ => d₁ = d' ∧ (∀ old, r = .ok old →
      ∃ i, d'.lookup (x.name sha256) = some i ∧ Unmarshal sha256 z (d'.files i).bytes = .ok old) ∧
    (r = .error .notExist → d'.lookup (x.name sha256) = none)) hI ?_ ?_ ?_) ?_
  · exact fun hmissing => ⟨rfl, fun _ heq => error_ne_ok heq, fun _ => hmissing⟩
  · intro i old hlookup hold
    refine ⟨rfl, fun old' heq => ?_, fun heq => absurd heq ok_ne_error⟩
    cases heq
    exact ⟨i, hlookup, hold⟩
  · exact fun e he => ⟨rfl, fun _ heq => error_ne_ok heq, fun heq => absurd (Except.error.inj heq) he⟩
  rintro (e | old) d₁ - ⟨rfl, hfound, hmissing⟩
  · dsimp only
    split
    · exact wp_fail hI error_ne_ok
    · rename_i hmissed
      have hfree := hmissing (congrArg Except.error (not_not.1 hmissed))
      refine wp_bind (wp_list hI) ?_ fun _ _ _ _ => error_ne_ok
      rintro files d₂ - ⟨rfl, -⟩
      refine wp_bind (wp_tally files 0 0 hI) ?_ fun _ _ _ _ => error_ne_ok
      rintro used d₃ - rfl
      split
      · exact wp_fail hI error_ne_ok
      · obtain ⟨hvalid, compressed, stored, hstores, hbytes⟩ := marshal_eq_ok hraw
        have hold : Unmarshal sha256 z raw = .ok x.inUTC := by
          rw [hbytes]
          exact unmarshal_envelope hz hvalid hstores
        refine wp_bind (wp_run (Q := fun r d' => ∀ a, r = .ok a → pendingPrefix <+: a.1 ∧
          a.2 = d₃.next ∧ d₃.lookup a.1 = none ∧ d' = d₃.create.link a.1 (some d₃.next)) hI ?_) ?_ fun _ _ _ _ => error_ne_ok
        · intro r d' hstep
          rcases hstep with ⟨rfl, e, -, rfl⟩ | ⟨tmp, htmp, hnew, rfl, rfl⟩
          · exact ⟨hI, fun _ => error_ne_ok⟩
          · refine ⟨(keeps_createTemp hI htmp).1, ?_⟩
            rintro _ ⟨rfl⟩
            exact ⟨htmp, rfl, hnew, rfl⟩
        rintro ⟨tmp, f⟩ d' hI' hcreated
        obtain ⟨htmp, hf, -, rfl⟩ := hcreated _ rfl
        dsimp only at htmp hf ⊢
        obtain rfl := hf
        have hfile : ((d₃.create.link tmp (some d₃.next)).files d₃.next).bytes = [] := by
          rw [Disk.files_link]
          unfold Disk.create
          dsimp only
          rw [Function.update_self]
        have hfree' : (d₃.create.link tmp (some d₃.next)).lookup (x.name sha256) = none := by
          rw [Disk.lookup_link_ne _ _ ((isBatch_name x).ne htmp)]
          exact hfree
        refine wp_onExit (wp_stage htmp hI' (Disk.lookup_link_self _ _ _) (keeps_createTemp hI htmp).2 hfile
          hfree' hold (same_of_valid hvalid)) ?_
        -- the deferred `Remove` finds a file only if the delivery was not accepted
        rintro r d₄ r' d₅ hI₄ hdurable hremove
        rcases hremove with ⟨rfl, e, -, rfl⟩ | hremove
        · exact ⟨hI₄, hdurable⟩
        · rcases hgone : d₄.lookup tmp with _ | i
          · rw [hgone] at hremove
            obtain ⟨-, rfl⟩ := hremove
            exact ⟨hI₄, hdurable⟩
          · rw [hgone] at hremove
            obtain ⟨-, rfl⟩ := hremove
            have hkept := keeps_link (v := none) hI₄.sound (hI₄.sound.unlink tmp) fun hbatch =>
              absurd htmp hbatch.not_pending
            exact ⟨hI₄.trans hkept, fun hok => hkept.durable x (hdurable hok)⟩
  · rcases hfound old rfl with ⟨i, hlookup, hold⟩
    dsimp only
    split
    · rename_i hsame
      refine wp_run hI fun r d' hstep => ?_
      rcases hstep with ⟨rfl, e, -, rfl⟩ | ⟨rfl, rfl⟩
      · exact ⟨hI, error_ne_ok⟩
      · have hheld : Held sha256 z x d₁ := ⟨i, old, hlookup, hold, hsame⟩
        exact ⟨hI.trans (keeps_syncNames hI.sound), fun _ => hheld.syncNames⟩
    · exact wp_fail hI error_ne_ok

/-! ## Ack -/

/-- A verified acknowledgement of the delivery: its header, digest and all, and its payload
unless that is left out. -/
def Acks (d : Delivery) (verify : Option (Delivery → Except Failure Bool)) (x : Delivery) : Prop :=
  (∃ v, verify = some v ∧ v d = .ok true) ∧ x.SameHeader d ∧ (0 < d.payload.length → x.payload = d.payload)

theorem Delivery.SameHeader.trans {a b c : Delivery} (h : a.SameHeader b) (h' : a.SameHeader c) :
    b.SameHeader c := by
  obtain ⟨h1, h2, h3, h4, h5, h6, h7, h8, h9⟩ := h
  obtain ⟨h1', h2', h3', h4', h5', h6', h7', h8', h9'⟩ := h'
  exact ⟨h1.symm.trans h1', h2.symm.trans h2', h3.symm.trans h3', h4.symm.trans h4', h5.symm.trans h5',
    h6.symm.trans h6', h7.symm.trans h7', h8.symm.trans h8', h9.symm.trans h9'⟩

/-- Every delivery is kept but what is acknowledged. -/
structure AckKeeps (sha256 : List UInt8 → Vector UInt8 32) (z : Zlib) (y : Delivery)
    (verify : Option (Delivery → Except Failure Bool)) (d d' : Disk) : Prop where
  sound : Sound sha256 z d'
  held : ∀ x, ¬ Acks y verify x → Held sha256 z x d → Held sha256 z x d'
  durable : ∀ x, ¬ Acks y verify x → Durable sha256 z x d → Durable sha256 z x d'

theorem ackKeeps_refl {y : Delivery} {verify : Option (Delivery → Except Failure Bool)}
    (hs : Sound sha256 z d) : AckKeeps sha256 z y verify d d :=
  ⟨hs, fun _ _ => id, fun _ _ => id⟩

theorem AckKeeps.keeps {y : Delivery} {verify : Option (Delivery → Except Failure Bool)} {d'' : Disk}
    (h : AckKeeps sha256 z y verify d d') (h' : Keeps sha256 z d' d'') : AckKeeps sha256 z y verify d d'' :=
  ⟨h'.sound, fun x hx hheld => h'.held x (h.held x hx hheld),
    fun x hx hdurable => h'.durable x (h.durable x hx hdurable)⟩

/-- The file that goes is the acknowledged one. -/
theorem ackKeeps_remove {y old : Delivery} {v : Delivery → Except Failure Bool} {i : Nat}
    (hs : Sound sha256 z d) (hv : v y = .ok true) (hlookup : d.lookup (y.name sha256) = some i)
    (hold : Unmarshal sha256 z (d.files i).bytes = .ok old) (hgood : ¬ Conflicts sha256 old y) :
    AckKeeps sha256 z y (some v) d (d.link (y.name sha256) none) := by
  obtain ⟨hheader, hpayload⟩ := not_or.1 hgood
  -- what is read at the name is what is acknowledged
  have hacks : ∀ x j old', d.lookup (x.name sha256) = some j → Unmarshal sha256 z (d.files j).bytes = .ok old' →
      Same sha256 old' x → x.name sha256 = y.name sha256 → Acks y (some v) x := by
    intro x j old' hj hold' hsame hname
    rw [hname, hlookup] at hj
    obtain rfl := Option.some.inj hj
    rw [hold] at hold'
    obtain rfl := Except.ok.inj hold'
    refine ⟨⟨v, rfl, hv⟩, hsame.2.2.1.trans (not_not.1 hheader), ?_⟩
    intro hpos
    have hboth : Same sha256 old y := not_not.1 fun hne => hpayload ⟨hpos, hne⟩
    exact hsame.2.2.2.symm.trans hboth.2.2.2
  refine ⟨hs.unlink _, ?_, ?_⟩
  · rintro x hx ⟨j, old', hj, hold', hsame⟩
    have hne : x.name sha256 ≠ y.name sha256 := fun hname => hx (hacks x j old' hj hold' hsame hname)
    refine ⟨j, old', ?_, ?_, hsame⟩
    · rw [Disk.lookup_link_ne _ _ hne]
      exact hj
    · rw [Disk.files_link]
      exact hold'
  · rintro x hx ⟨j, old', hj, hold', hsame⟩
    have hne : x.name sha256 ≠ y.name sha256 := fun hname =>
      hx (hacks x j old' (Durable.lookup hs hj) hold' hsame hname)
    refine ⟨j, old', ?_, ?_, hsame⟩
    · rw [Disk.stable_link_ne _ _ hne]
      exact hj
    · rw [Disk.files_link]
      exact hold'

theorem wp_ack (hs : Sound sha256 z d) (y : Delivery) (verify : Option (Delivery → Except Failure Bool)) :
    wp Perform (AckKeeps sha256 z y verify d) (Ack sha256 z y verify) (fun _ _ => True) d := by
  have hI : AckKeeps sha256 z y verify d d := ackKeeps_refl hs
  unfold Ack
  rcases verify with _ | v
  · exact wp_fail hI trivial
  dsimp only
  refine wp_bind (wp_ofExcept (Q := fun r d' => r = v y ∧ d' = d) hI ⟨rfl, rfl⟩) ?_ fun _ _ _ _ => trivial
  rintro ok d' - ⟨hok, rfl⟩
  split
  · exact wp_fail hI trivial
  · rename_i htrue
    have hv : v y = .ok true := by
      rw [← hok]
      exact congrArg Except.ok (by simpa using htrue)
    refine wp_skip (.inl rfl) hI (fun _ => ?_) fun _ => trivial
    refine wp_bind_attempt (wp_read (Q := fun r d₁ => d₁ = d' ∧ ∀ old, r = .ok old →
      ∃ i, d'.lookup (y.name sha256) = some i ∧ Unmarshal sha256 z (d'.files i).bytes = .ok old) hI ?_ ?_ ?_) ?_
    · intro _
      refine ⟨rfl, ?_⟩
      intro old hne
      cases hne
    · intro i old hlookup hold
      refine ⟨rfl, ?_⟩
      rintro _ ⟨rfl⟩
      exact ⟨i, hlookup, hold⟩
    · intro e _
      refine ⟨rfl, ?_⟩
      intro old hne
      cases hne
    rintro (e | old) d₁ - ⟨rfl, hread⟩
    · dsimp only
      split
      · exact wp_pure hI trivial
      · exact wp_fail hI trivial
    · obtain ⟨i, hlookup, hold⟩ := hread old rfl
      dsimp only
      split
      · exact wp_fail hI trivial
      · rename_i hgood
        refine wp_bind (wp_run (Q := fun _ _ => True) hI ?_) ?_ fun _ _ _ _ => trivial
        · intro r d' hstep
          rcases hstep with ⟨rfl, e, -, rfl⟩ | hstep
          · exact ⟨hI, trivial⟩
          · rw [hlookup] at hstep
            obtain ⟨-, rfl⟩ := hstep
            exact ⟨ackKeeps_remove hs hv hlookup hold hgood, trivial⟩
        · rintro a d' hI' -
          refine wp_run hI' fun r d'' hstep => ?_
          rcases hstep with ⟨rfl, e, -, rfl⟩ | ⟨-, rfl⟩
          · exact ⟨hI', trivial⟩
          · exact ⟨hI'.keeps (keeps_syncNames hI'.sound), trivial⟩

/-! ## Recover -/

theorem valid_of_unmarshal {raw : List UInt8} {x : Delivery} (h : Unmarshal sha256 z raw = .ok x) :
    Valid sha256 x := by
  unfold Unmarshal at h
  simp only [Check.seq_eq_ok] at h
  obtain ⟨-, -, h⟩ := h
  obtain ⟨⟨head, c⟩, -, h⟩ := Check.andThen_eq_ok.1 h
  rw [Check.seq_eq_ok] at h
  obtain ⟨-, h⟩ := h
  obtain ⟨payload, -, h⟩ := Check.andThen_eq_ok.1 h
  obtain ⟨hvalid, h⟩ := Check.seq_eq_ok.1 h
  obtain rfl := Except.ok.inj h
  exact validate_eq_ok.1 hvalid

/-- What `Recover` may do: nothing is written, every delivery is kept, and a staged file
goes only where its delivery can be read. -/
structure Promotes (sha256 : List UInt8 → Vector UInt8 32) (z : Zlib) (d d' : Disk) : Prop where
  keeps : Keeps sha256 z d d'
  bytes : ∀ i, (d'.files i).bytes = (d.files i).bytes
  staged : ∀ n, pendingPrefix <+: n → d'.lookup n = d.lookup n ∨ (d'.lookup n = none ∧
    ∀ i, d.lookup n = some i → ∃ x, Unmarshal sha256 z (d.files i).bytes = .ok x ∧ Held sha256 z x d')

theorem Promotes.refl (hs : Sound sha256 z d) : Promotes sha256 z d d :=
  ⟨.refl hs, fun _ => rfl, fun _ _ => .inl rfl⟩

theorem Promotes.trans {d'' : Disk} (h : Promotes sha256 z d d') (h' : Promotes sha256 z d' d'') :
    Promotes sha256 z d d'' := by
  refine ⟨h.keeps.trans h'.keeps, fun i => (h'.bytes i).trans (h.bytes i), ?_⟩
  intro n hn
  rcases h.staged n hn with hsame | ⟨hnone, hheld⟩
  · rcases h'.staged n hn with hsame' | ⟨hnone', hheld'⟩
    · exact .inl (hsame'.trans hsame)
    · refine .inr ⟨hnone', fun i hi => ?_⟩
      obtain ⟨x, hx, hheldx⟩ := hheld' i (hsame.trans hi)
      rw [h.bytes] at hx
      exact ⟨x, hx, hheldx⟩
  · have hgone : d''.lookup n = none := by
      rcases h'.staged n hn with hsame' | ⟨hnone', -⟩
      · exact hsame'.trans hnone
      · exact hnone'
    refine .inr ⟨hgone, fun i hi => ?_⟩
    obtain ⟨x, hx, hheldx⟩ := hheld i hi
    exact ⟨x, hx, h'.keeps.held x hheldx⟩

/-- A staged name goes, once its delivery can be read. -/
theorem promotes_gone {x : Delivery} {path : Name} {i : Nat} (hlookup : d.lookup path = some i)
    (hx : Unmarshal sha256 z (d.files i).bytes = .ok x) (hkeeps : Keeps sha256 z d d')
    (hbytes : ∀ i, (d'.files i).bytes = (d.files i).bytes) (hgone : d'.lookup path = none)
    (hothers : ∀ n, pendingPrefix <+: n → n ≠ path → d'.lookup n = d.lookup n)
    (hheld : Held sha256 z x d') : Promotes sha256 z d d' := by
  refine ⟨hkeeps, hbytes, ?_⟩
  intro n hn
  by_cases hname : n = path
  · rw [hname]
    refine .inr ⟨hgone, ?_⟩
    intro j hj
    rw [hlookup] at hj
    obtain rfl := Option.some.inj hj
    exact ⟨x, hx, hheld⟩
  · exact .inl (hothers n hn hname)

theorem promotes_syncFile (hs : Sound sha256 z d) (f : Nat) : Promotes sha256 z d (d.syncFile f) :=
  ⟨keeps_syncFile hs f, d.bytes_syncFile f, fun _ _ => .inl rfl⟩

theorem promotes_syncNames (hs : Sound sha256 z d) : Promotes sha256 z d d.syncNames :=
  ⟨keeps_syncNames hs, fun _ => rfl, fun _ _ => .inl rfl⟩

theorem promotes_remove {x old : Delivery} {path : Name} {i j : Nat} (hs : Sound sha256 z d)
    (hpath : pendingPrefix <+: path) (hlookup : d.lookup path = some i)
    (hx : Unmarshal sha256 z (d.files i).bytes = .ok x) (htarget : d.lookup (x.name sha256) = some j)
    (hold : Unmarshal sha256 z (d.files j).bytes = .ok old) (hgood : ¬ Conflicts sha256 old x) :
    Promotes sha256 z d (d.link path none) := by
  have hsame : Same sha256 old x := by
    have hpos : 0 < x.payload.length := Nat.pos_of_ne_zero (valid_of_unmarshal hx).payload_pos
    exact not_not.1 fun hne => (not_or.1 hgood).2 ⟨hpos, hne⟩
  have hkeeps := keeps_link (v := none) hs (hs.unlink path) fun hbatch => absurd hpath hbatch.not_pending
  have hheld : Held sha256 z x d := ⟨j, old, htarget, hold, hsame⟩
  refine promotes_gone hlookup hx hkeeps ?_ (Disk.lookup_link_self _ _ _) ?_ (hkeeps.held x hheld)
  · intro i
    rw [Disk.files_link]
  · intro n _ hne
    exact Disk.lookup_link_ne _ _ hne

theorem promotes_rename {x : Delivery} {path : Name} {i : Nat} (hs : Sound sha256 z d)
    (hpath : pendingPrefix <+: path) (hlookup : d.lookup path = some i)
    (hfree : d.lookup (x.name sha256) = none) (hsynced : (d.files i).synced = true)
    (hx : Unmarshal sha256 z (d.files i).bytes = .ok x) :
    Promotes sha256 z d ((d.link (x.name sha256) (some i)).link path none) := by
  have hvalid : validate sha256 x = .ok () := validate_eq_ok.2 (valid_of_unmarshal hx)
  have hsame : Same sha256 x x := ⟨hvalid, hvalid, ⟨rfl, rfl, rfl, rfl, rfl, rfl, rfl, rfl, rfl⟩, rfl⟩
  obtain ⟨hkeeps, hheld⟩ := (Keeps.refl hs).rename hpath hlookup hfree hsynced hx hsame
  refine promotes_gone hlookup hx hkeeps ?_ (Disk.lookup_link_self _ _ _) ?_ hheld
  · intro i
    rw [Disk.files_link, Disk.files_link]
  · intro n hn hne
    rw [Disk.lookup_link_ne _ _ hne, Disk.lookup_link_ne _ _ ((isBatch_name x).ne hn).symm]

theorem wp_promote {x : Delivery} {path : Name} {i : Nat} (hs : Sound sha256 z d)
    (hpath : pendingPrefix <+: path) (hlookup : d.lookup path = some i)
    (hx : Unmarshal sha256 z (d.files i).bytes = .ok x) :
    wp Perform (Promotes sha256 z d) (promote sha256 z path x)
      (fun r d' => r = .ok () → d'.lookup path = none) d := by
  have hI := Promotes.refl hs
  unfold promote
  refine wp_bind_attempt (wp_read (Q := fun r d' => d' = d ∧ (∀ old, r = .ok old →
      ∃ j, d.lookup (x.name sha256) = some j ∧ Unmarshal sha256 z (d.files j).bytes = .ok old) ∧
    (r = .error .notExist → d.lookup (x.name sha256) = none)) hI ?_ ?_ ?_) ?_
  · exact fun hmissing => ⟨rfl, fun _ heq => error_ne_ok heq, fun _ => hmissing⟩
  · intro j old hj hold
    refine ⟨rfl, fun old' heq => ?_, fun heq => absurd heq ok_ne_error⟩
    cases heq
    exact ⟨j, hj, hold⟩
  · exact fun e he => ⟨rfl, fun _ heq => error_ne_ok heq, fun heq => absurd (Except.error.inj heq) he⟩
  rintro (e | old) d' - ⟨rfl, hfound, hmissing⟩
  · dsimp only
    split
    · exact wp_fail hI error_ne_ok
    · rename_i hmissed
      have hfree := hmissing (congrArg Except.error (not_not.1 hmissed))
      refine wp_bind (wp_run (Q := fun r d₁ => d₁ = d' ∧ ∀ f, r = .ok f → f = i) hI ?_) ?_ fun _ _ _ _ => error_ne_ok
      · intro r d₁ hstep
        rcases hstep with ⟨rfl, e, -, rfl⟩ | ⟨rfl, hopen⟩
        · exact ⟨hI, rfl, fun _ => error_ne_ok⟩
        · rw [hlookup] at hopen
          dsimp only at hopen
          rw [hopen]
          refine ⟨hI, rfl, ?_⟩
          rintro _ ⟨rfl⟩
          rfl
      rintro f d₁ - ⟨rfl, hf⟩
      obtain rfl := hf f rfl
      -- the sync may fail; then `closed` is looked at in vain
      refine wp_bind_attempt (wp_run (Q := fun r d₂ => r = .ok () → d₂ = d₁.syncFile f) hI ?_) ?_
      · intro r d₂ hstep
        rcases hstep with ⟨rfl, e, -, rfl⟩ | ⟨rfl, rfl⟩
        · exact ⟨hI, error_ne_ok⟩
        · exact ⟨promotes_syncFile hs f, fun _ => rfl⟩
      intro synced d₂ hI₂ hsynced
      refine wp_bind_attempt (wp_unit (.inr (.inr ⟨f, rfl⟩)) hI₂) ?_
      rintro closed d₃ - rfl
      refine wp_bind (wp_ofExcept (Q := fun r d' => r = synced ∧ d' = d₃) hI₂ ⟨rfl, rfl⟩) ?_ fun _ _ _ _ => error_ne_ok
      rintro ⟨⟩ d₄ - ⟨hok, rfl⟩
      obtain rfl := hsynced hok.symm
      refine wp_bind (wp_ofExcept (Q := fun _ d' => d' = d₁.syncFile f) hI₂ rfl) ?_ fun _ _ _ _ => error_ne_ok
      rintro ⟨⟩ d₅ - rfl
      refine wp_run hI₂ fun r d₆ hstep => ?_
      have hname : (d₁.syncFile f).lookup path = some f := hlookup
      have hfile : ((d₁.syncFile f).files f).synced = true := by
        unfold Disk.syncFile
        dsimp only
        rw [Function.update_self]
      rcases hstep with ⟨rfl, e, -, rfl⟩ | hstep
      · exact ⟨hI₂, error_ne_ok⟩
      · rw [hname] at hstep
        obtain ⟨-, rfl⟩ := hstep
        refine ⟨hI₂.trans (promotes_rename hI₂.keeps.sound hpath hname hfree hfile ?_), fun _ => ?_⟩
        · rw [d₁.bytes_syncFile]
          exact hx
        · exact Disk.lookup_link_self _ _ _
  · rcases hfound old rfl with ⟨j, hj, hold⟩
    dsimp only
    split
    · exact wp_fail hI error_ne_ok
    · rename_i hgood
      refine wp_run hI fun r d₁ hstep => ?_
      rcases hstep with ⟨rfl, e, -, rfl⟩ | hstep
      · exact ⟨hI, error_ne_ok⟩
      · rw [hlookup] at hstep
        obtain ⟨-, rfl⟩ := hstep
        exact ⟨promotes_remove hs hpath hlookup hx hj hold hgood, fun _ => Disk.lookup_link_self _ _ _⟩

/-- When the loop is through, no file it looked at is staged any more. -/
theorem wp_recoverFiles (files : List DirEntry) (hs : Sound sha256 z d) :
    wp Perform (Promotes sha256 z d) (recoverFiles sha256 z files)
      (fun r d' => r = .ok () → ∀ f ∈ files, pendingPrefix <+: f.name → d'.lookup f.name = none) d := by
  have hI := Promotes.refl hs
  induction files generalizing d with
  | nil => exact wp_pure hI fun _ f hf => absurd hf (List.not_mem_nil)
  | cons f rest ih =>
      unfold recoverFiles
      refine wp_skip (.inr (.inl rfl)) hI (fun _ => ?_) fun _ => error_ne_ok
      split
      · rename_i hpending
        refine wp_bind_attempt (wp_read (Q := fun r d' => d' = d ∧ ∀ x, r = .ok x →
          ∃ i, d.lookup f.name = some i ∧ Unmarshal sha256 z (d.files i).bytes = .ok x) hI ?_ ?_ ?_) ?_
        · intro _
          refine ⟨rfl, ?_⟩
          intro x hne
          cases hne
        · intro i x hlookup hx
          refine ⟨rfl, ?_⟩
          rintro _ ⟨rfl⟩
          exact ⟨i, hlookup, hx⟩
        · intro e _
          refine ⟨rfl, ?_⟩
          intro x hne
          cases hne
        rintro (e | x) d' - ⟨rfl, hread⟩
        · exact wp_fail hI error_ne_ok
        · obtain ⟨i, hlookup, hx⟩ := hread x rfl
          refine wp_bind (wp_promote hs hpending hlookup hx) ?_ fun _ _ _ _ => error_ne_ok
          rintro ⟨⟩ d₁ hI₁ hgone
          refine wp_mono (ih hI₁.keeps.sound (Promotes.refl hI₁.keeps.sound)) (fun d₂ => hI₁.trans) ?_
          intro r d₂ hI₂ hrest hok g hg hpending'
          rcases List.mem_cons.1 hg with rfl | hmem
          · rcases hI₂.staged g.name hpending' with hsame | ⟨hnone, -⟩
            · exact hsame.trans (hgone rfl)
            · exact hnone
          · exact hrest hok g hmem hpending'
      · rename_i hpending
        refine wp_mono (ih hs hI) (fun _ => id) ?_
        intro r d' _ hrest hok g hg hpending'
        rcases List.mem_cons.1 hg with rfl | hmem
        · exact absurd hpending' hpending
        · exact hrest hok g hmem hpending'

/-- `Recover` that returns without an error leaves nothing staged. -/
theorem wp_recover (hs : Sound sha256 z d) :
    wp Perform (Promotes sha256 z d) (Recover sha256 z)
      (fun r d' => r = .ok () → (∀ n, pendingPrefix <+: n → d'.lookup n = none) ∧
        ∀ x, Held sha256 z x d' → Durable sha256 z x d') d := by
  have hI := Promotes.refl hs
  unfold Recover
  refine wp_skip (.inl rfl) hI (fun _ => ?_) fun _ => error_ne_ok
  refine wp_bind (wp_list hI) ?_ fun _ _ _ _ => error_ne_ok
  rintro files d' - ⟨rfl, hlist⟩
  refine wp_bind (wp_recoverFiles files hs) ?_ fun _ _ _ _ => error_ne_ok
  rintro ⟨⟩ d₁ hI₁ hdone
  have hnone : ∀ n, pendingPrefix <+: n → d₁.lookup n = none := by
    intro n hn
    rcases hlookup : d'.lookup n with _ | i
    · rcases hI₁.staged n hn with hsame | ⟨hgone, -⟩
      · exact hsame.trans hlookup
      · exact hgone
    · obtain ⟨f, hf, rfl⟩ := hlist files rfl n i hlookup
      exact hdone rfl f hf hn
  refine wp_run hI₁ fun r d₂ hstep => ?_
  rcases hstep with ⟨rfl, e, -, rfl⟩ | ⟨rfl, rfl⟩
  · exact ⟨hI₁, error_ne_ok⟩
  · exact ⟨hI₁.trans (promotes_syncNames hI₁.keeps.sound), fun _ => ⟨hnone, fun x hx => hx.syncNames⟩⟩

/-! ## Runs -/

variable {a : Call × Option (Except Failure Unit)} {x : Delivery}

theorem Crash.sound (h : Crash d d') (hs : Sound sha256 z d) : Sound sha256 z d' := by
  cases h with
  | killed => exact hs
  | powerLoss hloss => exact hs.powerLoss hloss

theorem Crash.durable (h : Crash d d') (hs : Sound sha256 z d) (hx : Durable sha256 z x d) :
    Durable sha256 z x d' := by
  cases h with
  | killed => exact hx
  | powerLoss hloss => exact hx.powerLoss hs hloss

/-- On its way and at its end, a call keeps what it does not acknowledge. -/
theorem wp_program (hz : z.RoundTrips) (hs : Sound sha256 z d) (c : Call) :
    wp Perform (fun d' => Sound sha256 z d' ∧ ∀ x, (∀ y verify, c = .ack y verify → ¬ Acks y verify x) →
      Durable sha256 z x d → Durable sha256 z x d') (c.program sha256 z) (fun _ _ => True) d := by
  cases c with
  | accept q y =>
      refine wp_mono (wp_accept hz hs q y) ?_ fun _ _ _ _ => trivial
      exact fun d' hkeeps => ⟨hkeeps.sound, fun x _ => hkeeps.durable x⟩
  | ack y verify =>
      refine wp_mono (wp_ack hs y verify) ?_ fun _ _ _ _ => trivial
      exact fun d' hkeeps => ⟨hkeeps.sound, fun x hx => hkeeps.durable x (hx y verify rfl)⟩
  | recover =>
      refine wp_mono (wp_recover hs) ?_ fun _ _ _ _ => trivial
      exact fun d' hpromotes => ⟨hpromotes.keeps.sound, fun x _ => hpromotes.keeps.durable x⟩

theorem Step.keeps (hz : z.RoundTrips) (h : Step sha256 z d a d') (hs : Sound sha256 z d) :
    Sound sha256 z d' ∧ ∀ x, (∀ y verify, a.1 = .ack y verify → ¬ Acks y verify x) →
      Durable sha256 z x d → Durable sha256 z x d' := by
  cases h with
  | returned _ c r hexec =>
      exact wp_exec (wp_mono (wp_program hz hs c) (fun _ => id) fun _ _ hI _ => hI) hexec
  | crashed d₁ _ c hstops hcrash =>
      obtain ⟨hs₁, hkeeps⟩ := wp_stops (wp_program hz hs c) hstops
      exact ⟨hcrash.sound hs₁, fun x hx hdurable => hcrash.durable hs₁ (hkeeps x hx hdurable)⟩

theorem sound_run (hz : z.RoundTrips) {as : List (Call × Option (Except Failure Unit))}
    (h : Transition.Run (Step sha256 z) d as d') (hs : Sound sha256 z d) : Sound sha256 z d' :=
  h.invariant (Sound sha256 z) hs fun _ _ _ hstep hs => (hstep.keeps hz hs).1

theorem durable_run (hz : z.RoundTrips) {as : List (Call × Option (Except Failure Unit))}
    (h : Transition.Run (Step sha256 z) d as d') (hs : Sound sha256 z d)
    (has : ∀ a ∈ as, ∀ y verify, a.1 = .ack y verify → ¬ Acks y verify x) (hx : Durable sha256 z x d) :
    Durable sha256 z x d' := by
  induction h with
  | nil s => exact hx
  | cons hstep _ ih =>
      obtain ⟨hs', hkeeps⟩ := hstep.keeps hz hs
      exact ih hs' (fun a ha => has a (List.mem_cons_of_mem _ ha))
        (hkeeps x (has _ List.mem_cons_self) hx)

theorem durable_accepted (hz : z.RoundTrips) (hs : Sound sha256 z d) {q : Queue}
    (h : Step sha256 z d (.accept q x, some (.ok ())) d') : Durable sha256 z x d' := by
  cases h with
  | returned _ _ _ hexec => exact wp_exec (wp_accept hz hs q x) hexec rfl

/-- A name has one delivery. -/
theorem Durable.unique {y : Delivery} (hx : Durable sha256 z x d) (hy : Durable sha256 z y d)
    (hname : y.name sha256 = x.name sha256) : x.SameHeader y ∧ x.payload = y.payload := by
  obtain ⟨i, old, hstable, hold, hsame⟩ := hx
  obtain ⟨j, old', hstable', hold', hsame'⟩ := hy
  rw [hname, hstable] at hstable'
  obtain rfl : i = j := by simpa using hstable'
  rw [hold] at hold'
  obtain rfl := Except.ok.inj hold'
  exact ⟨hsame.2.2.1.trans hsame'.2.2.1, hsame.2.2.2.symm.trans hsame'.2.2.2⟩

theorem recovered (hs : Sound sha256 z d) {r : Except Failure Unit}
    (h : Step sha256 z d (.recover, some r) d') :
    Promotes sha256 z d d' ∧ (r = .ok () → (∀ n, pendingPrefix <+: n → d'.lookup n = none) ∧
      ∀ x, Held sha256 z x d' → Durable sha256 z x d') := by
  cases h with
  | returned _ _ _ hexec =>
      have hboth : wp Perform (Promotes sha256 z d) (Recover sha256 z) (fun r d' => Promotes sha256 z d d' ∧
          (r = .ok () → (∀ n, pendingPrefix <+: n → d'.lookup n = none) ∧
            ∀ x, Held sha256 z x d' → Durable sha256 z x d')) d :=
        wp_mono (wp_recover hs) (fun _ => id) fun _ _ hI hQ => ⟨hI, hQ⟩
      exact wp_exec hboth hexec

/-- A file that breaks off is no delivery's. -/
theorem Sound.whole (hs : Sound sha256 z d) (hz : z.RoundTrips) {n : Name} {i : Nat}
    (hn : IsBatch sha256 n) (hi : d.lookup n = some i) {raw : List UInt8}
    (hraw : MarshalCompressed sha256 z x = .ok raw) (hstart : (d.files i).bytes <+: raw) :
    (d.files i).bytes = raw := by
  obtain ⟨-, old, hold, -⟩ := hs.stored n i hn (hi ▸ hs.current n)
  obtain ⟨raw', hraw', -, -, hbroken⟩ :=
    envelope_round_trip hz (validate_eq_ok.2 (marshal_eq_ok hraw).1) true
  obtain rfl := Except.ok.inj (hraw.symm.trans hraw')
  by_contra hne
  exact (hbroken _ hne (.inl hstart)).1 old hold

theorem exec_tally {files : List DirEntry} (h : ∀ f ∈ files, f.regular = true) {entries : Nat}
    (hfew : entries + files.length ≤ 100000) (used : Nat) (d : Disk) :
    CrashLogic.Exec Perform (tally files entries used) d
      (.ok (used + (files.map DirEntry.size).sum)) d := by
  induction files generalizing entries used with
  | nil => exact .ret _ _
  | cons f rest ih =>
      rw [List.length_cons] at hfew
      unfold tally
      rw [if_neg (by omega)]
      refine CrashLogic.Exec.bind (a := ()) (CrashLogic.exec_run ⟨rfl, ok_ne_error⟩) ?_
      rw [if_neg (by rw [h f List.mem_cons_self]; decide), List.map_cons, List.sum_cons, ← Nat.add_assoc]
      exact ih (fun g hg => h g (List.mem_cons_of_mem _ hg)) (by omega) _

/-- An `Accept` that finds room for a new delivery gets to its staging file. -/
theorem stops_accept {q : Queue} {raw : List UInt8} (tmp : Name) (entries : List DirEntry)
    (hraw : MarshalCompressed sha256 z x = .ok raw) (hfree : d.lookup (x.name sha256) = none)
    (hperm : (entries.map DirEntry.name).Perm (lockName :: d.names.keys))
    (hsizes : ∀ f ∈ entries, ∀ i ∈ d.lookup f.name, f.size = (d.files i).bytes.length)
    (hregular : ∀ f ∈ entries, f.regular = true) (hfew : entries.length ≤ 100000)
    (hroom : (entries.map DirEntry.size).sum + raw.length ≤ q.maxBytes) (htmp : pendingPrefix <+: tmp)
    (hnew : d.lookup tmp = none)
    (h : CrashLogic.Stops Perform (onExit (.remove tmp) (stage raw (x.name sha256) tmp d.next))
      (d.create.link tmp (some d.next)) d') :
    CrashLogic.Stops Perform (Accept sha256 z q x) d d' := by
  have hmissing : CrashLogic.Exec Perform (read sha256 z (x.name sha256)) d (.error .notExist) d := by
    refine CrashLogic.Exec.bind_error (CrashLogic.exec_run (.inr ⟨rfl, ?_⟩))
    rw [hfree]
  unfold Accept
  rw [hraw]
  refine CrashLogic.Stops.bind (CrashLogic.exec_ofExcept _ _) ?_
  refine CrashLogic.Stops.bind (a := ()) (CrashLogic.exec_run ⟨rfl, ok_ne_error⟩) ?_
  refine CrashLogic.Stops.bind (a := ()) (CrashLogic.exec_run ⟨rfl, ok_ne_error⟩) ?_
  refine CrashLogic.Stops.bind hmissing.attempt ?_
  dsimp only
  rw [if_neg (by simp)]
  refine CrashLogic.Stops.bind (a := entries)
    (CrashLogic.exec_run (.inr ⟨rfl, entries, rfl, hperm, hsizes⟩)) ?_
  refine CrashLogic.Stops.bind (exec_tally hregular (by omega) 0 d) ?_
  rw [if_neg (by omega)]
  exact CrashLogic.Stops.bind (a := (tmp, d.next)) (CrashLogic.exec_run (.inr ⟨tmp, htmp, hnew, rfl, rfl⟩)) h

/-- `.pending-1`. -/
def partialName : Name := pendingPrefix ++ [49]

/-- `.pending-2`. -/
def completeName : Name := pendingPrefix ++ [50]

def sampleRaw : List UInt8 :=
  envelope (sample noDigest) false [1, 2, 3] ++ (noDigest (envelope (sample noDigest) false [1, 2, 3])).toList

theorem sampleRaw_marshal : MarshalCompressed noDigest unpacked (sample noDigest) = .ok sampleRaw := by
  unfold MarshalCompressed marshal
  rw [sample_valid]
  rfl

theorem sampleRaw_unmarshal : Unmarshal noDigest unpacked sampleRaw = .ok (sample noDigest).inUTC := by
  obtain ⟨hvalid, compressed, stored, hstores, heq⟩ := marshal_eq_ok sampleRaw_marshal
  rw [heq]
  exact unmarshal_envelope unpacked_roundTrips hvalid hstores

theorem sampleRaw_header : readHeader noDigest ((sample noDigest).name noDigest) sampleRaw =
    .ok (sample noDigest).candidate := by
  obtain ⟨hvalid, compressed, stored, hstores, heq⟩ := marshal_eq_ok sampleRaw_marshal
  rw [heq]
  exact readHeader_envelope unpacked_roundTrips hvalid hstores Vector.length_toList

/-- A crash right after the staging file is made. -/
def oneCrash : Disk := Disk.link (Disk.create {}) partialName (some 0)

/-- And one right after the next is written. -/
def twoCrashes : Disk := ((Disk.create oneCrash).link completeName (some 1)).append 1 sampleRaw

def smallQueue : Queue := ⟨4096⟩

theorem run_twoCrashes : Transition.Run (Step noDigest unpacked) {}
    [(.accept smallQueue (sample noDigest), none), (.accept smallQueue (sample noDigest), none)] twoCrashes := by
  have hlength : sampleRaw.length ≤ 1000 := by
    obtain ⟨hvalid, compressed, stored, hstores, heq⟩ := marshal_eq_ok sampleRaw_marshal
    rw [heq, List.length_append, Vector.length_toList]
    have := length_headBytes hvalid
    have hstored := (hstores.fits hvalid).1
    have hpayload : (sample noDigest).payload.length = 3 := rfl
    rw [envelope_eq, List.length_append, List.length_append, List.length_append, length_start]
    have hbytes : (lengthBytes compressed stored).length ≤ 4 := by
      unfold lengthBytes
      split
      · exact le_of_eq (Wire.length_bigEndian _ _)
      · exact Nat.zero_le _
    omega
  have hroom : smallQueue.maxBytes = 4096 := rfl
  refine .cons (.crashed {} oneCrash oneCrash _ ?_ .killed) (.cons (.crashed oneCrash twoCrashes _ _ ?_ .killed) (.nil _))
  · refine stops_accept partialName [⟨lockName, true, 0⟩] sampleRaw_marshal rfl (.refl _)
      ?_ (by decide) (by decide) ?_ (List.prefix_append _ _) rfl (.here _ _)
    · intro f _ i hi
      cases hi
    · simp only [List.map_cons, List.map_nil, List.sum_cons, List.sum_nil, hroom]
      omega
  · have hother : (sample noDigest).name noDigest ≠ partialName :=
      (isBatch_name _).ne (List.prefix_append _ _)
    refine stops_accept completeName [⟨lockName, true, 0⟩, ⟨partialName, true, 0⟩]
      sampleRaw_marshal ?_ (.refl _) ?_ (by decide) (by decide) ?_ (List.prefix_append _ _) rfl ?_
    · exact (Disk.lookup_link_ne _ _ hother).trans rfl
    · intro f hf i hi
      rcases List.mem_cons.1 hf with rfl | hf
      · cases hi
      · obtain rfl := List.mem_singleton.1 hf
        obtain rfl : 0 = i := Option.some.inj hi
        rfl
    · simp only [List.map_cons, List.map_nil, List.sum_cons, List.sum_nil, hroom]
      omega
    · exact .later (r := .ok ()) (.inr ⟨rfl, rfl⟩) (.here _ _)

theorem recover_twoCrashes : Step noDigest unpacked twoCrashes
    (.recover, some (.error (.staging partialName (.text "invalid spool header")))) twoCrashes := by
  have hread : CrashLogic.Exec Perform (read noDigest unpacked partialName) twoCrashes
      (.error (.text "invalid spool header")) twoCrashes := by
    refine CrashLogic.Exec.bind (a := []) (CrashLogic.exec_run (.inr ⟨rfl, ?_⟩)) ?_
    · show (.ok [] : Except Failure (List UInt8)) = .ok ((twoCrashes.files 0).bytes)
      rfl
    · exact .fail _ _
  refine .returned _ _ _ _ ?_
  refine CrashLogic.Exec.bind (a := ()) (CrashLogic.exec_run ⟨rfl, ok_ne_error⟩) ?_
  refine CrashLogic.Exec.bind (a := [⟨partialName, true, 0⟩, ⟨completeName, true, sampleRaw.length⟩, ⟨lockName, true, 0⟩])
    (CrashLogic.exec_run (.inr ⟨rfl, _, rfl, ?_, ?_⟩)) ?_
  · show [partialName, completeName, lockName].Perm [lockName, completeName, partialName]
    decide
  · intro f hf i hi
    simp only [List.mem_cons, List.not_mem_nil, or_false] at hf
    rcases hf with rfl | rfl | rfl
    · obtain rfl : 0 = i := Option.some.inj hi
      rfl
    · obtain rfl : 1 = i := Option.some.inj hi
      rfl
    · cases hi
  · refine CrashLogic.Exec.bind_error ?_
    unfold recoverFiles
    refine CrashLogic.Exec.bind (a := ()) (CrashLogic.exec_run ⟨rfl, ok_ne_error⟩) ?_
    dsimp only
    rw [if_pos (show pendingPrefix <+: partialName from List.prefix_append _ _)]
    exact CrashLogic.Exec.bind hread.attempt (.fail _ _)

end MarketInfo.Spool
