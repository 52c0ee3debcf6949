import MarketInfo.Spool.Durability
import MarketInfo.Spool.Index

/-! # The index is exact

Whatever the order of changes, notifications, pages and removals, the bytes of the index are
those of its entries. When every notification was read, the names that a scan has settled are
indexed if and only if their batches are in the directory, with the headers they have there.
-/

namespace MarketInfo.Spool

open Transition (Run)

variable {sha256 : List UInt8 → Vector UInt8 32}

namespace Index

variable {s s' : Index} {n name : Name}

/-! ## Steps -/

/-- What a step does, and when. -/
inductive Moves (sha256 : List UInt8 → Vector UInt8 32) (s : Index) : IndexAct → Index → Prop where
  | appear (name : Name) (file : List UInt8) (hnew : s.dir.lookup name = none) :
      Moves sha256 s (.appear name file)
        { s with dir := s.dir.insert name file, notices := s.notices ++ [.added name] }
  | disappear (name : Name) :
      Moves sha256 s (.disappear name)
        { s with
          dir := s.dir.erase name
          notices := s.notices ++ [.deleted name]
          scan := s.scan.map fun sc => { sc with owed := sc.owed.filter (· ≠ name) } }
  | deleted (name : Name) (rest : List Notice) (hadding : s.adding = none)
      (hnotices : s.notices = .deleted name :: rest) : Moves sha256 s .notify ({ s with notices := rest }.drop name)
  | added (name : Name) (rest : List Notice) (hadding : s.adding = none)
      (hnotices : s.notices = .added name :: rest) :
      Moves sha256 s .notify ({ s with notices := rest }.read sha256 name true)
  | openScan :
      Moves sha256 s .openScan { s with scan := some ⟨s.dir.keys, []⟩, undisturbed := fun _ => true }
  | visit (name : Name) (sc : Scan) (hadding : s.adding = none) (hscan : s.scan = some sc) :
      Moves sha256 s (.visit name) (s.visit sha256 sc name)
  | file (a : Adding) (hadding : s.adding = some a) : Moves sha256 s .file (s.insert a)
  | finish (seen : List Name) (hadding : s.adding = none) (hscan : s.scan = some ⟨[], seen⟩) :
      Moves sha256 s .finish (s.finish ⟨[], seen⟩)
  | remove (d : Delivery) : Moves sha256 s (.remove d) (s.remove sha256 d)

theorem moves_of_step {a : IndexAct} (hstep : s.Steps sha256 a s') : Moves sha256 s a s' := by
  -- a step of an idle worker: no header is on its way
  have hidle : ∀ {P : Prop}, ¬ (P ∨ s.adding.isSome = true) → s.adding = none := fun hready =>
    Option.not_isSome_iff_eq_none.1 fun hsome => hready (.inr hsome)
  unfold Steps at hstep
  cases a with
  | appear name file =>
      dsimp only [step] at hstep
      split at hstep
      · rename_i hnew
        obtain rfl := Option.some.inj hstep
        exact .appear name file (Option.isNone_iff_eq_none.1 hnew)
      · cases hstep
  | disappear name =>
      dsimp only [step] at hstep
      split at hstep
      · obtain rfl := Option.some.inj hstep
        exact .disappear name
      · cases hstep
  | notify =>
      dsimp only [step] at hstep
      split at hstep
      · cases hstep
      · rename_i hready
        split at hstep
        · cases hstep
        · rename_i name rest hnotices
          obtain rfl := Option.some.inj hstep
          exact .deleted name rest (hidle hready) hnotices
        · rename_i name rest hnotices
          obtain rfl := Option.some.inj hstep
          exact .added name rest (hidle hready) hnotices
  | openScan =>
      dsimp only [step] at hstep
      split at hstep
      · cases hstep
      · obtain rfl := Option.some.inj hstep
        exact .openScan
  | visit name =>
      dsimp only [step] at hstep
      split at hstep
      · cases hstep
      · rename_i hready
        split at hstep
        · cases hstep
        · rename_i sc hscan
          obtain rfl := Option.some.inj hstep
          exact .visit name sc (hidle hready) hscan
  | file =>
      dsimp only [step] at hstep
      split at hstep
      · cases hstep
      · rename_i a hadding
        obtain rfl := Option.some.inj hstep
        exact .file a hadding
  | finish =>
      dsimp only [step] at hstep
      split at hstep
      · cases hstep
      · rename_i hready
        split at hstep
        · rename_i seen hscan
          obtain rfl := Option.some.inj hstep
          exact .finish seen (hidle hready) hscan
        · cases hstep
  | remove d =>
      obtain rfl := Option.some.inj hstep
      exact .remove d

/-! ## Entries -/

@[simp] theorem drop_dir (s : Index) (name : Name) : (s.drop name).dir = s.dir := by
  unfold drop
  split <;> rfl

@[simp] theorem drop_notices (s : Index) (name : Name) : (s.drop name).notices = s.notices := by
  unfold drop
  split <;> rfl

@[simp] theorem drop_scan (s : Index) (name : Name) : (s.drop name).scan = s.scan := by
  unfold drop
  split <;> rfl

@[simp] theorem drop_adding (s : Index) (name : Name) : (s.drop name).adding = s.adding := by
  unfold drop
  split <;> rfl

@[simp] theorem drop_failed (s : Index) (name : Name) : (s.drop name).failed = s.failed := by
  unfold drop
  split <;> rfl

@[simp] theorem drop_maxBytes (s : Index) (name : Name) : (s.drop name).maxBytes = s.maxBytes := by
  unfold drop
  split <;> rfl

@[simp] theorem drop_settled (s : Index) (name : Name) : (s.drop name).settled = s.settled := by
  unfold drop
  split <;> rfl

@[simp] theorem drop_undisturbed (s : Index) (name : Name) : (s.drop name).undisturbed = s.undisturbed := by
  unfold drop
  split <;> rfl

theorem lookup_drop (s : Index) (name n : Name) :
    (s.drop name).entries.lookup n = if n = name then none else s.entries.lookup n := by
  unfold drop
  by_cases hn : n = name
  · subst hn
    rw [if_pos rfl]
    rcases hlookup : s.entries.lookup n with _ | c
    · exact hlookup
    · exact AList.lookup_erase _ _
  · rw [if_neg hn]
    rcases hlookup : s.entries.lookup name with _ | c
    · rfl
    · exact AList.lookup_erase_ne hn

theorem lookup_dropAll (names : List Name) (s : Index) (n : Name) :
    (names.foldl drop s).entries.lookup n = if n ∈ names then none else s.entries.lookup n := by
  induction names generalizing s with
  | nil => rw [if_neg List.not_mem_nil]; rfl
  | cons name names ih =>
      rw [List.foldl_cons, ih, lookup_drop]
      by_cases hn : n = name
      · subst hn
        rw [if_pos rfl, ite_self, if_pos List.mem_cons_self]
      · rw [if_neg hn]
        by_cases hmem : n ∈ names
        · rw [if_pos hmem, if_pos (List.mem_cons_of_mem _ hmem)]
        · have hcons : n ∉ name :: names := fun hin => hmem ((List.mem_cons.1 hin).resolve_left hn)
          rw [if_neg hmem, if_neg hcons]

theorem frame_dropAll (names : List Name) (s : Index) :
    (names.foldl drop s).dir = s.dir ∧ (names.foldl drop s).notices = s.notices ∧
      (names.foldl drop s).adding = s.adding := by
  induction names generalizing s with
  | nil => exact ⟨rfl, rfl, rfl⟩
  | cons name names ih =>
      obtain ⟨hdir, hnotices, hadding⟩ := ih (s.drop name)
      rw [drop_dir] at hdir
      rw [drop_notices] at hnotices
      rw [drop_adding] at hadding
      exact ⟨hdir, hnotices, hadding⟩

/-! ## The bytes -/

structure Accounted (s : Index) : Prop where
  bytes : s.metadataBytes = Ledger.total candidateCost s.entries
  within : s.metadataBytes ≤ s.maxBytes

theorem candidateCost_nonneg (c : Candidate) : 0 ≤ candidateCost c := by
  unfold candidateCost
  omega

theorem Accounted.drop (h : s.Accounted) (name : Name) : (s.drop name).Accounted := by
  unfold Index.drop
  rcases hlookup : s.entries.lookup name with _ | c
  · exact h
  · have hheld : Ledger.held candidateCost s.entries name = candidateCost c := by
      unfold Ledger.held
      rw [hlookup]
      rfl
    have hcost := candidateCost_nonneg c
    have hwithin := h.within
    constructor
    · dsimp only
      rw [Ledger.total_erase, hheld, h.bytes]
    · dsimp only
      omega

theorem Accounted.dropAll (names : List Name) (h : s.Accounted) : (names.foldl Index.drop s).Accounted := by
  induction names generalizing s with
  | nil => exact h
  | cons name names ih => exact ih (h.drop name)

theorem Accounted.read (h : s.Accounted) (name : Name) (noticed : Bool) :
    (s.read sha256 name noticed).Accounted := by
  unfold Index.read
  split
  · split
    · exact ⟨h.bytes, h.within⟩
    · exact h
  · split
    · exact ⟨h.bytes, h.within⟩
    · exact ⟨h.bytes, h.within⟩

theorem Accounted.insert (h : s.Accounted) (a : Adding) : (s.insert a).Accounted := by
  unfold Index.insert
  dsimp only
  split
  · split
    · exact ⟨h.bytes, h.within⟩
    · split
      · exact ⟨h.bytes, h.within⟩
      · exact ⟨h.bytes, h.within⟩
  · rename_i hnone
    split
    · exact ⟨h.bytes, h.within⟩
    · rename_i hroom
      have hheld : Ledger.held candidateCost s.entries a.name = 0 := by
        unfold Ledger.held
        rw [hnone]
        rfl
      have hbytes := h.bytes
      refine ⟨?_, ?_⟩
      · dsimp only
        rw [Ledger.total_insert, hheld, sub_zero, hbytes]
      · split
        · exact not_lt.1 hroom
        · exact not_lt.1 hroom

theorem Accounted.visit (h : s.Accounted) (sc : Scan) (name : Name) : (s.visit sha256 sc name).Accounted := by
  have hseen : Accounted { s with scan := some ⟨sc.owed.filter (· ≠ name), name :: sc.seen⟩ } :=
    ⟨h.bytes, h.within⟩
  unfold Index.visit
  dsimp only
  split
  · exact hseen
  · exact hseen.read name false

theorem Accounted.remove (h : s.Accounted) (d : Delivery) : (s.remove sha256 d).Accounted := by
  unfold Index.remove
  dsimp only
  split
  · exact h
  · split
    · have hdropped := h.drop (d.name sha256)
      exact ⟨hdropped.bytes, hdropped.within⟩
    · exact h

theorem accounted_step {a : IndexAct} (hstep : s.Steps sha256 a s') (h : s.Accounted) : s'.Accounted := by
  cases moves_of_step hstep with
  | appear name file hnew => exact ⟨h.bytes, h.within⟩
  | disappear name => exact ⟨h.bytes, h.within⟩
  | deleted name rest hadding hnotices =>
      have hread : Accounted { s with notices := rest } := ⟨h.bytes, h.within⟩
      exact hread.drop name
  | added name rest hadding hnotices =>
      have hread : Accounted { s with notices := rest } := ⟨h.bytes, h.within⟩
      exact hread.read name true
  | openScan => exact ⟨h.bytes, h.within⟩
  | visit name sc hadding hscan => exact h.visit sc name
  | file a hadding => exact h.insert a
  | finish seen hadding hscan =>
      have hdropped := h.dropAll (s.entries.keys.filter fun name => !seen.contains name)
      exact ⟨hdropped.bytes, hdropped.within⟩
  | remove d => exact h.remove d

/-! ## One name -/

/-- The directory has the file of the header under the name. -/
def Holds (sha256 : List UInt8 → Vector UInt8 32) (s : Index) (n : Name) (c : Candidate) : Prop :=
  ∃ file, s.dir.lookup n = some file ∧ readHeader sha256 n file = .ok c

/-- No notification of the name is on its way. -/
def Quiet (s : Index) (n : Name) : Prop := ∀ e ∈ s.notices, e.name ≠ n

/-- The name is being added. -/
def Coming (s : Index) (n : Name) : Prop := ∃ a, s.adding = some a ∧ a.name = n

/-- What is known of a name: an entry is that of the file unless a deletion is on its way, and a
file that nothing tells of anymore is indexed, or is still to come. -/
structure Fine (sha256 : List UInt8 → Vector UInt8 32) (s : Index) (n : Name) : Prop where
  content : .deleted n ∉ s.notices → ∀ c, s.entries.lookup n = some c → Holds sha256 s n c
  coming : .deleted n ∉ s.notices → ∀ a, s.adding = some a → a.name = n → Holds sha256 s n a.candidate
  present : s.settled n = true → s.Quiet n → s.dir.lookup n ≠ none → s.entries.lookup n ≠ none ∨ s.Coming n
  seen : ∀ sc, s.scan = some sc → s.Quiet n → s.dir.lookup n ≠ none →
    n ∈ sc.owed ∨ n ∈ sc.seen ∨ ∃ a, s.adding = some a ∧ a.name = n ∧ a.noticed = true
  found : ∀ sc, s.scan = some sc → s.undisturbed n = true → s.Quiet n → s.dir.lookup n ≠ none →
    n ∈ sc.owed ∨ s.entries.lookup n ≠ none ∨ s.Coming n

/-- Nothing happened to the name. -/
structure Same (s s' : Index) (n : Name) : Prop where
  dir : s'.dir.lookup n = s.dir.lookup n
  entry : s'.entries.lookup n = s.entries.lookup n
  notices : ∀ e : Notice, e.name = n → (e ∈ s'.notices ↔ e ∈ s.notices)
  adding : ∀ a : Adding, a.name = n → (s'.adding = some a ↔ s.adding = some a)
  settled : s'.settled n = s.settled n
  undisturbed : s'.undisturbed n = s.undisturbed n
  scan : ∀ sc', s'.scan = some sc' →
    ∃ sc, s.scan = some sc ∧ (n ∈ sc.owed → n ∈ sc'.owed) ∧ (n ∈ sc.seen → n ∈ sc'.seen)

theorem Same.quiet (h : Same s s' n) (hquiet : s'.Quiet n) : s.Quiet n := by
  intro e he hname
  exact hquiet e ((h.notices e hname).2 he) hname

theorem Same.coming (h : Same s s' n) (hcoming : s.Coming n) : s'.Coming n := by
  obtain ⟨a, ha, hname⟩ := hcoming
  exact ⟨a, (h.adding a hname).2 ha, hname⟩

theorem Same.holds (h : Same s s' n) {c : Candidate} (hholds : Holds sha256 s n c) : Holds sha256 s' n c := by
  obtain ⟨file, hfile, hread⟩ := hholds
  exact ⟨file, h.dir.trans hfile, hread⟩

theorem Fine.same (h : Fine sha256 s n) (hsame : Same s s' n) : Fine sha256 s' n where
  content := by
    intro hdeleted c hc
    rw [hsame.entry] at hc
    exact hsame.holds (h.content (fun he => hdeleted ((hsame.notices _ rfl).2 he)) c hc)
  coming := by
    intro hdeleted a ha hname
    have hold := (hsame.adding a hname).1 ha
    exact hsame.holds (h.coming (fun he => hdeleted ((hsame.notices _ rfl).2 he)) a hold hname)
  present := by
    intro hsettled hquiet hpresent
    rw [hsame.settled] at hsettled
    rw [hsame.dir] at hpresent
    rw [hsame.entry]
    exact (h.present hsettled (hsame.quiet hquiet) hpresent).imp_right hsame.coming
  seen := by
    intro sc' hscan' hquiet hpresent
    rw [hsame.dir] at hpresent
    obtain ⟨sc, hscan, howed, hseen⟩ := hsame.scan sc' hscan'
    rcases h.seen sc hscan (hsame.quiet hquiet) hpresent with hin | hin | ⟨a, ha, hname, hnoticed⟩
    · exact .inl (howed hin)
    · exact .inr (.inl (hseen hin))
    · exact .inr (.inr ⟨a, (hsame.adding a hname).2 ha, hname, hnoticed⟩)
  found := by
    intro sc' hscan' hundisturbed hquiet hpresent
    rw [hsame.undisturbed] at hundisturbed
    rw [hsame.dir] at hpresent
    obtain ⟨sc, hscan, howed, -⟩ := hsame.scan sc' hscan'
    rw [hsame.entry]
    rcases h.found sc hscan hundisturbed (hsame.quiet hquiet) hpresent with hin | hentry | hcoming
    · exact .inl (howed hin)
    · exact .inr (.inl hentry)
    · exact .inr (.inr (hsame.coming hcoming))

/-! ## The notifications -/

/-- The last notification of a name tells what the directory has. -/
def Matched (s : Index) : Prop :=
  ∀ pre e rest, s.notices = pre ++ e :: rest → (∀ e' ∈ rest, e'.name ≠ e.name) →
    (s.dir.lookup e.name).isSome = e.isAdded

theorem Matched.append (h : s.Matched) {e : Notice}
    (hdir : ∀ n, n ≠ e.name → s'.dir.lookup n = s.dir.lookup n)
    (hlast : (s'.dir.lookup e.name).isSome = e.isAdded) (hnotices : s'.notices = s.notices ++ [e]) :
    s'.Matched := by
  intro pre e' rest heq hother
  rw [hnotices] at heq
  rcases List.eq_nil_or_concat rest with rfl | ⟨rest', last, rfl⟩
  -- the new notification itself
  · obtain ⟨-, he⟩ := List.append_inj' heq rfl
    obtain rfl : e = e' := (List.cons.inj he).1
    exact hlast
  -- an older one, and the new one is of another name
  · rw [List.concat_eq_append, ← List.cons_append, ← List.append_assoc] at heq
    obtain ⟨hinit, hend⟩ := List.append_inj' heq rfl
    obtain rfl : e = last := (List.cons.inj hend).1
    have hmem : e ∈ rest'.concat e := by
      rw [List.concat_eq_append]
      exact List.mem_append_right _ List.mem_cons_self
    have hne : e.name ≠ e'.name := hother e hmem
    rw [hdir _ hne.symm]
    refine h pre e' rest' hinit fun e'' he'' => hother e'' ?_
    rw [List.concat_eq_append]
    exact List.mem_append_left _ he''

theorem Matched.tail (h : s.Matched) {e : Notice} {rest : List Notice} (hnotices : s.notices = e :: rest)
    (hdir : s'.dir = s.dir) (hrest : s'.notices = rest) : s'.Matched := by
  intro pre e' rest' heq hother
  rw [hdir]
  rw [hrest] at heq
  exact h (e :: pre) e' rest' (by rw [hnotices, heq]; rfl) hother

theorem Matched.congr (h : s.Matched) (hdir : s'.dir = s.dir) (hnotices : s'.notices = s.notices) :
    s'.Matched := by
  intro pre e rest heq hother
  rw [hdir]
  rw [hnotices] at heq
  exact h pre e rest heq hother

/-! ## The directory changes -/

theorem fine_appear (h : ∀ n, Fine sha256 s n) (hnew : s.dir.lookup name = none) (file : List UInt8) (n : Name) :
    Fine sha256 { s with dir := s.dir.insert name file, notices := s.notices ++ [.added name] } n := by
  by_cases hn : n = name
  · subst hn
    have hnone : ∀ c, ¬ Holds sha256 s n c := by
      rintro c ⟨file', hfile, -⟩
      rw [hnew] at hfile
      cases hfile
    have hloud : ∀ s' : Index, s'.notices = s.notices ++ [.added n] → ¬ s'.Quiet n := by
      intro s' hnotices hquiet
      refine hquiet (.added n) ?_ rfl
      rw [hnotices]
      -- there was no file: of an entry or a header on its way a deletion will tell
      exact List.mem_append_right _ List.mem_cons_self
    exact
      { content := fun hdeleted c hc =>
          absurd ((h n).content (fun he => hdeleted (List.mem_append_left _ he)) c hc) (hnone c)
        coming := fun hdeleted a ha hname =>
          absurd ((h n).coming (fun he => hdeleted (List.mem_append_left _ he)) a ha hname) (hnone _)
        present := fun _ hquiet => absurd hquiet (hloud _ rfl)
        seen := fun _ _ hquiet => absurd hquiet (hloud _ rfl)
        found := fun _ _ _ hquiet => absurd hquiet (hloud _ rfl) }
  · refine (h n).same
      { dir := AList.lookup_insert_ne hn
        entry := rfl
        notices := ?_
        adding := fun _ _ => Iff.rfl
        settled := rfl
        undisturbed := rfl
        scan := fun sc hsc => ⟨sc, hsc, id, id⟩ }
    intro e he
    rw [List.mem_append, List.mem_singleton]
    refine ⟨fun hin => hin.resolve_right ?_, .inl⟩
    rintro rfl
    exact hn he.symm

theorem fine_disappear (h : ∀ n, Fine sha256 s n) (name n : Name) :
    Fine sha256 { s with
      dir := s.dir.erase name
      notices := s.notices ++ [.deleted name]
      scan := s.scan.map fun sc => { sc with owed := sc.owed.filter (· ≠ name) } } n := by
  by_cases hn : n = name
  · subst hn
    have hlast : Notice.deleted n ∈ s.notices ++ [.deleted n] := List.mem_append_right _ List.mem_cons_self
    have hloud : ∀ s' : Index, s'.notices = s.notices ++ [.deleted n] → ¬ s'.Quiet n := by
      intro s' hnotices hquiet
      refine hquiet (.deleted n) ?_ rfl
      rw [hnotices]
      exact hlast
    -- the deletion is on its way, and until it is read nothing is said of the name
    exact
      { content := fun hdeleted => absurd hlast hdeleted
        coming := fun hdeleted => absurd hlast hdeleted
        present := fun _ hquiet => absurd hquiet (hloud _ rfl)
        seen := fun _ _ hquiet => absurd hquiet (hloud _ rfl)
        found := fun _ _ _ hquiet => absurd hquiet (hloud _ rfl) }
  · refine (h n).same
      { dir := AList.lookup_erase_ne hn
        entry := rfl
        notices := ?_
        adding := fun _ _ => Iff.rfl
        settled := rfl
        undisturbed := rfl
        scan := ?_ }
    · intro e he
      rw [List.mem_append, List.mem_singleton]
      refine ⟨fun hin => hin.resolve_right ?_, .inl⟩
      rintro rfl
      exact hn he.symm
    · intro sc' hsc'
      obtain ⟨sc, hsc, rfl⟩ := Option.map_eq_some_iff.1 hsc'
      exact ⟨sc, hsc, fun hin => List.mem_filter.2 ⟨hin, decide_eq_true hn⟩, id⟩

/-! ## The notifications are read -/

theorem quiet_first {e : Notice} {rest : List Notice} (hmatched : s.Matched) (hnotices : s.notices = e :: rest)
    (hquiet : ∀ e' ∈ rest, e'.name ≠ e.name) : (s.dir.lookup e.name).isSome = e.isAdded :=
  hmatched [] e rest hnotices hquiet

/-- A notification of another name. -/
theorem same_rest {e : Notice} {rest : List Notice} (hnotices : s.notices = e :: rest) (hn : e.name ≠ n) :
    Same s { s with notices := rest } n where
  dir := rfl
  entry := rfl
  notices := by
    intro e' he'
    rw [hnotices, List.mem_cons]
    refine ⟨.inr, fun hin => hin.resolve_left ?_⟩
    rintro rfl
    exact hn he'
  adding := fun _ _ => Iff.rfl
  settled := rfl
  undisturbed := rfl
  scan := fun sc hsc => ⟨sc, hsc, id, id⟩

theorem fine_deleted {rest : List Notice} (h : ∀ n, Fine sha256 s n) (hmatched : s.Matched)
    (hnotices : s.notices = .deleted name :: rest) (hadding : s.adding = none) (n : Name) :
    Fine sha256 ({ s with notices := rest }.drop name) n := by
  by_cases hn : n = name
  · subst hn
    -- with no notification left of the name this one was the last, and the file is gone
    have hgone : ∀ s' : Index, s'.notices = rest → s'.dir = s.dir → s'.Quiet n → s'.dir.lookup n = none := by
      intro s' hrest hdir hquiet
      have hfirst := quiet_first hmatched hnotices (by rw [← hrest]; exact hquiet)
      rw [hdir]
      exact Option.not_isSome_iff_eq_none.1 (Bool.not_eq_true _ ▸ hfirst)
    exact
      { content := by
          intro _ c hc
          rw [lookup_drop, if_pos rfl] at hc
          cases hc
        coming := by
          intro _ a ha
          rw [drop_adding] at ha
          change s.adding = some a at ha
          rw [hadding] at ha
          cases ha
        present := fun _ hquiet hpresent => absurd (hgone _ (by simp) (by simp) hquiet) hpresent
        seen := fun _ _ hquiet hpresent => absurd (hgone _ (by simp) (by simp) hquiet) hpresent
        found := fun _ _ _ hquiet hpresent => absurd (hgone _ (by simp) (by simp) hquiet) hpresent }
  · refine ((h n).same (same_rest hnotices fun heq => hn heq.symm)).same
      { dir := by rw [drop_dir]
        entry := by rw [lookup_drop, if_neg hn]
        notices := fun e _ => by rw [drop_notices]
        adding := fun a _ => by rw [drop_adding]
        settled := by rw [drop_settled]
        undisturbed := by rw [drop_undisturbed]
        scan := fun sc hsc => ⟨sc, by rwa [drop_scan] at hsc, id, id⟩ }

/-- A header on its way changes nothing for the other names. -/
theorem same_adding (hadding : s.adding = none) (a : Adding) (hn : a.name ≠ n) :
    Same s { s with adding := some a } n where
  dir := rfl
  entry := rfl
  notices := fun _ _ => Iff.rfl
  adding := by
    intro b hb
    rw [hadding]
    constructor
    · intro h
      rw [Option.some.inj h] at hn
      exact absurd hb hn
    · rintro ⟨⟩
  settled := rfl
  undisturbed := rfl
  scan := fun sc hsc => ⟨sc, hsc, id, id⟩

theorem same_mark (s : Index) (name n : Name) : Same s (s.mark name) n where
  dir := rfl
  entry := rfl
  notices := fun _ _ => Iff.rfl
  adding := fun _ _ => Iff.rfl
  settled := rfl
  undisturbed := rfl
  scan := by
    intro sc' hsc'
    obtain ⟨sc, hsc, rfl⟩ := Option.map_eq_some_iff.1 hsc'
    exact ⟨sc, hsc, id, List.mem_cons_of_mem _⟩

theorem fine_added {rest : List Notice} (h : ∀ n, Fine sha256 s n)
    (hnotices : s.notices = .added name :: rest) (hadding : s.adding = none)
    (hok : ({ s with notices := rest }.read sha256 name true).failed = false) (n : Name) :
    Fine sha256 ({ s with notices := rest }.read sha256 name true) n := by
  have hothers : ∀ m, m ≠ name → Fine sha256 { s with notices := rest } m := fun m hm =>
    (h m).same (same_rest hnotices fun heq => hm heq.symm)
  have hcontent : .deleted name ∉ rest → ∀ c, s.entries.lookup name = some c → Holds sha256 s name c := by
    intro hdeleted c hc
    refine (h name).content ?_ c hc
    rw [hnotices, List.mem_cons]
    rintro (heq | hin)
    · cases heq
    · exact hdeleted hin
  unfold Index.read at hok ⊢
  dsimp only at hok ⊢
  rcases hfile : s.dir.lookup name with _ | file
  · -- the file is gone again, and another notification will tell
    rw [hfile] at hok
    dsimp only at hok ⊢
    rw [if_pos rfl] at hok ⊢
    by_cases hn : n = name
    · subst hn
      exact
        { content := hcontent
          coming := by
            intro _ a ha
            change s.adding = some a at ha
            rw [hadding] at ha
            cases ha
          present := fun _ _ hpresent => absurd hfile hpresent
          seen := fun _ _ _ hpresent => absurd hfile hpresent
          found := fun _ _ _ _ hpresent => absurd hfile hpresent }
    · exact (hothers n hn).same (same_mark _ name n)
  · rw [hfile] at hok
    dsimp only at hok ⊢
    rcases hheader : readHeader sha256 name file with e | c
    · rw [hheader] at hok
      cases hok
    · dsimp only
      by_cases hn : n = name
      · subst hn
        exact
          { content := hcontent
            coming := by
              rintro _ a ⟨⟩ -
              exact ⟨file, hfile, hheader⟩
            present := fun _ _ _ => .inr ⟨_, rfl, rfl⟩
            seen := fun _ _ _ _ => .inr (.inr ⟨_, rfl, rfl, rfl⟩)
            found := fun _ _ _ _ _ => .inr (.inr ⟨_, rfl, rfl⟩) }
      · exact (hothers n hn).same
          (same_adding (s := { s with notices := rest }) hadding ⟨name, c, true⟩ (Ne.symm hn))

/-! ## The scan -/

theorem fine_openScan (h : ∀ n, Fine sha256 s n) (n : Name) :
    Fine sha256 { s with scan := some ⟨s.dir.keys, []⟩, undisturbed := fun _ => true } n where
  content := (h n).content
  coming := (h n).coming
  present := (h n).present
  seen := by
    rintro _ ⟨⟩ - hpresent
    exact .inl (AList.mem_keys.1 (AList.lookup_isSome.1 (Option.isSome_iff_ne_none.2 hpresent)))
  found := by
    rintro _ ⟨⟩ - - hpresent
    exact .inl (AList.mem_keys.1 (AList.lookup_isSome.1 (Option.isSome_iff_ne_none.2 hpresent)))

theorem fine_visit {sc : Scan} (h : ∀ n, Fine sha256 s n) (hscan : s.scan = some sc) (hadding : s.adding = none)
    (hok : (s.visit sha256 sc name).failed = false) (n : Name) : Fine sha256 (s.visit sha256 sc name) n := by
  have hothers : ∀ m, m ≠ name →
      Fine sha256 { s with scan := some ⟨sc.owed.filter (· ≠ name), name :: sc.seen⟩ } m := by
    intro m hm
    refine (h m).same
      { dir := rfl
        entry := rfl
        notices := fun _ _ => Iff.rfl
        adding := fun _ _ => Iff.rfl
        settled := rfl
        undisturbed := rfl
        scan := ?_ }
    rintro _ ⟨⟩
    exact ⟨sc, hscan, fun hin => List.mem_filter.2 ⟨hin, decide_eq_true hm⟩, List.mem_cons_of_mem _⟩
  unfold Index.visit Index.read at hok ⊢
  dsimp only at hok ⊢
  -- a name with an entry is not read again
  by_cases hknown : (s.entries.lookup name).isSome = true
  · rw [if_pos hknown]
    by_cases hn : n = name
    · subst hn
      exact
        { content := (h n).content
          coming := (h n).coming
          present := (h n).present
          seen := by
            rintro _ ⟨⟩ - -
            exact .inr (.inl List.mem_cons_self)
          found := fun _ _ _ _ _ => .inr (.inl (Option.isSome_iff_ne_none.1 hknown)) }
    · exact hothers n hn
  · rw [if_neg hknown] at hok ⊢
    rcases hfile : s.dir.lookup name with _ | file
    · dsimp only
      rw [if_neg (by decide)]
      by_cases hn : n = name
      · subst hn
        exact
          { content := (h n).content
            coming := (h n).coming
            present := (h n).present
            seen := fun _ _ _ hthere => absurd hfile hthere
            found := fun _ _ _ _ hthere => absurd hfile hthere }
      · exact hothers n hn
    · rw [hfile] at hok
      dsimp only at hok ⊢
      rcases hheader : readHeader sha256 name file with e | c
      · rw [hheader] at hok
        cases hok
      · dsimp only
        by_cases hn : n = name
        · subst hn
          exact
            { content := (h n).content
              coming := by
                rintro _ a ⟨⟩ -
                exact ⟨file, hfile, hheader⟩
              present := fun _ _ _ => .inr ⟨_, rfl, rfl⟩
              seen := by
                rintro _ ⟨⟩ - -
                exact .inr (.inl List.mem_cons_self)
              found := fun _ _ _ _ _ => .inr (.inr ⟨_, rfl, rfl⟩) }
        · exact (hothers n hn).same (same_adding
            (s := { s with scan := some ⟨sc.owed.filter (· ≠ name), name :: sc.seen⟩ }) hadding ⟨name, c, false⟩
            (Ne.symm hn))

theorem fine_finish {seen : List Name} (h : ∀ n, Fine sha256 s n) (hscan : s.scan = some ⟨[], seen⟩)
    (hadding : s.adding = none) (n : Name) : Fine sha256 (s.finish ⟨[], seen⟩) n := by
  obtain ⟨hdir, hnotices, hadding'⟩ := frame_dropAll (s.entries.keys.filter fun name => !seen.contains name) s
  have hentry : ∀ c, (s.finish ⟨[], seen⟩).entries.lookup n = some c → s.entries.lookup n = some c := by
    intro c hc
    have hlookup := lookup_dropAll (s.entries.keys.filter fun name => !seen.contains name) s n
    change ((s.entries.keys.filter fun name => !seen.contains name).foldl drop s).entries.lookup n = some c at hc
    rw [hlookup] at hc
    split at hc
    · cases hc
    · exact hc
  have hkept : n ∈ seen → (s.finish ⟨[], seen⟩).entries.lookup n = s.entries.lookup n := by
    intro hin
    refine (lookup_dropAll (s.entries.keys.filter fun name => !seen.contains name) s n).trans (if_neg ?_)
    intro hmem
    have hnot := (List.mem_filter.1 hmem).2
    rw [List.contains_iff_mem.2 hin] at hnot
    cases hnot
  have hquiet : (s.finish ⟨[], seen⟩).Quiet n → s.Quiet n := by
    intro hquiet e he
    refine hquiet e ?_
    change e ∈ ((s.entries.keys.filter fun name => !seen.contains name).foldl drop s).notices
    rw [hnotices]
    exact he
  have hnobody : ∀ a, s.adding ≠ some a := by
    intro a ha
    rw [hadding] at ha
    cases ha
  have hdeleted : .deleted n ∉ (s.finish ⟨[], seen⟩).notices → .deleted n ∉ s.notices := by
    intro hno
    rw [← hnotices]
    exact hno
  have hthere : (s.finish ⟨[], seen⟩).dir.lookup n = s.dir.lookup n := by
    change ((s.entries.keys.filter fun name => !seen.contains name).foldl drop s).dir.lookup n = _
    rw [hdir]
  refine
    { content := ?_
      coming := ?_
      present := ?_
      seen := nofun
      found := nofun }
  · intro hno c hc
    obtain ⟨file, hfile, hheader⟩ := (h n).content (hdeleted hno) c (hentry c hc)
    exact ⟨file, hthere.trans hfile, hheader⟩
  · intro _ a ha
    change ((s.entries.keys.filter fun name => !seen.contains name).foldl drop s).adding = some a at ha
    rw [hadding'] at ha
    exact absurd ha (hnobody a)
  · intro hsettled hq hpresent
    rw [hthere] at hpresent
    -- nothing is owed at the end of a scan, and no header is on its way
    have hin : n ∈ seen := by
      rcases (h n).seen _ hscan (hquiet hq) hpresent with howed | hseen | ⟨a, ha, -⟩
      · exact absurd howed List.not_mem_nil
      · exact hseen
      · exact absurd ha (hnobody a)
    rw [hkept hin]
    change (s.settled n || s.undisturbed n) = true at hsettled
    rw [Bool.or_eq_true] at hsettled
    -- settled before, or by this scan, in which it was not removed
    rcases hsettled with hold | hundisturbed
    · rcases (h n).present hold (hquiet hq) hpresent with hentry | ⟨a, ha, -⟩
      · exact .inl hentry
      · exact absurd ha (hnobody a)
    · rcases (h n).found _ hscan hundisturbed (hquiet hq) hpresent with howed | hentry | ⟨a, ha, -⟩
      · exact absurd howed List.not_mem_nil
      · exact .inl hentry
      · exact absurd ha (hnobody a)

/-- The header that was on its way is filed: its name has an entry, and no other name changes. -/
structure Filed (sha256 : List UInt8 → Vector UInt8 32) (s s' : Index) (a : Adding) : Prop where
  dir : s'.dir = s.dir
  notices : s'.notices = s.notices
  adding : s'.adding = none
  settled : s'.settled = s.settled
  undisturbed : s'.undisturbed = s.undisturbed
  others : ∀ n, n ≠ a.name → s'.entries.lookup n = s.entries.lookup n
  entry : s'.entries.lookup a.name ≠ none
  content : .deleted a.name ∉ s.notices → ∀ c, s'.entries.lookup a.name = some c → Holds sha256 s a.name c
  scan : ∀ sc', s'.scan = some sc' → ∃ sc, s.scan = some sc ∧ (∀ n, n ∈ sc.owed → n ∈ sc'.owed) ∧
    (∀ n, n ∈ sc.seen → n ∈ sc'.seen) ∧ (a.noticed = true → a.name ∈ sc'.seen)

theorem Filed.same {a : Adding} (hfiled : Filed sha256 s s' a) (hadding : s.adding = some a) (hn : n ≠ a.name) :
    Same s s' n where
  dir := by rw [hfiled.dir]
  entry := hfiled.others n hn
  notices := fun e _ => by rw [hfiled.notices]
  adding := by
    intro b hb
    rw [hfiled.adding, hadding]
    constructor
    · rintro ⟨⟩
    · intro heq
      rw [← Option.some.inj heq] at hb
      exact absurd hb.symm hn
  settled := by rw [hfiled.settled]
  undisturbed := by rw [hfiled.undisturbed]
  scan := by
    intro sc' hsc'
    obtain ⟨sc, hsc, howed, hseen, -⟩ := hfiled.scan sc' hsc'
    exact ⟨sc, hsc, howed n, hseen n⟩

theorem Filed.fine_name {a : Adding} (hfiled : Filed sha256 s s' a) (hadding : s.adding = some a)
    (h : Fine sha256 s a.name) : Fine sha256 s' a.name where
  content := by
    intro hdeleted c hc
    rw [hfiled.notices] at hdeleted
    obtain ⟨file, hfile, hheader⟩ := hfiled.content hdeleted c hc
    exact ⟨file, by rw [hfiled.dir]; exact hfile, hheader⟩
  coming := by
    intro _ b hb
    rw [hfiled.adding] at hb
    cases hb
  present := fun _ _ _ => .inl hfiled.entry
  seen := by
    intro sc' hsc' hquiet hpresent
    rw [hfiled.dir] at hpresent
    have hquiet' : s.Quiet a.name := by
      intro e he
      exact hquiet e (by rw [hfiled.notices]; exact he)
    obtain ⟨sc, hsc, howed, hseen, hnoticed⟩ := hfiled.scan sc' hsc'
    rcases h.seen sc hsc hquiet' hpresent with hin | hin | ⟨b, hb, -, hb'⟩
    · exact .inl (howed _ hin)
    · exact .inr (.inl (hseen _ hin))
    · rw [hadding] at hb
      obtain rfl := Option.some.inj hb
      exact .inr (.inl (hnoticed hb'))
  found := fun _ _ _ _ _ => .inr (.inl hfiled.entry)

theorem Filed.fine {a : Adding} (hfiled : Filed sha256 s s' a) (hadding : s.adding = some a)
    (h : ∀ n, Fine sha256 s n) (n : Name) : Fine sha256 s' n := by
  by_cases hn : n = a.name
  · rw [hn]
    exact hfiled.fine_name hadding (h a.name)
  · exact (h n).same (hfiled.same hadding hn)

theorem filed_insert {a : Adding} (h : ∀ n, Fine sha256 s n) (hadding : s.adding = some a)
    (hok : (s.insert a).failed = false) : Filed sha256 s (s.insert a) a := by
  -- the scan has seen a name that a notification told of
  have hmarked : ∀ sc', (if a.noticed then ({ s with adding := none } : Index).mark a.name
      else { s with adding := none }).scan = some sc' →
      ∃ sc, s.scan = some sc ∧ (∀ n, n ∈ sc.owed → n ∈ sc'.owed) ∧ (∀ n, n ∈ sc.seen → n ∈ sc'.seen) ∧
        (a.noticed = true → a.name ∈ sc'.seen) := by
    intro sc' hsc'
    split at hsc'
    · obtain ⟨sc, hsc, rfl⟩ := Option.map_eq_some_iff.1 hsc'
      exact ⟨sc, hsc, fun _ => id, fun _ => List.mem_cons_of_mem _, fun _ => List.mem_cons_self⟩
    · rename_i hnot
      exact ⟨sc', hsc', fun _ => id, fun _ => id, fun hnoticed => absurd hnoticed hnot⟩
  unfold Index.insert at hok ⊢
  dsimp only at hok ⊢
  rcases hold : s.entries.lookup a.name with _ | old
  · rw [hold] at hok
    dsimp only at hok ⊢
    by_cases hfull : s.maxBytes < s.metadataBytes + candidateCost a.candidate
    · rw [if_pos hfull] at hok
      cases hok
    · rw [if_neg hfull]
      refine
        { dir := by dsimp only; split <;> rfl
          notices := by dsimp only; split <;> rfl
          adding := by dsimp only; split <;> rfl
          settled := by dsimp only; split <;> rfl
          undisturbed := by dsimp only; split <;> rfl
          others := fun n hn => AList.lookup_insert_ne hn
          entry := ?_
          content := ?_
          scan := hmarked }
      · dsimp only
        rw [AList.lookup_insert]
        exact nofun
      · intro hdeleted c hc
        dsimp only at hc
        rw [AList.lookup_insert] at hc
        obtain rfl := Option.some.inj hc
        exact (h a.name).coming hdeleted a hadding rfl
  · rw [hold] at hok
    dsimp only at hok ⊢
    by_cases hconflict : ¬ old.header.SameHeader a.candidate.header
    · rw [if_pos hconflict] at hok
      cases hok
    · rw [if_neg hconflict]
      -- the entry that is there already stays
      have hentries : (if a.noticed then ({ s with adding := none } : Index).mark a.name
          else { s with adding := none }).entries = s.entries := by
        split <;> rfl
      exact
        { dir := by split <;> rfl
          notices := by split <;> rfl
          adding := by split <;> rfl
          settled := by split <;> rfl
          undisturbed := by split <;> rfl
          others := fun n _ => by rw [hentries]
          entry := by rw [hentries, hold]; exact nofun
          content := by rw [hentries]; exact (h a.name).content
          scan := hmarked }

theorem fine_remove (h : ∀ n, Fine sha256 s n) (d : Delivery) (n : Name) :
    Fine sha256 (s.remove sha256 d) n := by
  unfold Index.remove
  dsimp only
  split
  · exact h n
  · split
    · by_cases hn : n = d.name sha256
      · subst hn
        -- the entry goes whatever the directory has, so the name is no longer settled
        have hnone : (s.drop (d.name sha256)).entries.lookup (d.name sha256) = none := by
          rw [lookup_drop, if_pos rfl]
        refine
          { content := ?_
            coming := ?_
            present := ?_
            seen := ?_
            found := ?_ }
        · intro _ c hc
          change (s.drop (d.name sha256)).entries.lookup (d.name sha256) = some c at hc
          rw [hnone] at hc
          cases hc
        · intro hdeleted a ha hname
          change .deleted (d.name sha256) ∉ (s.drop (d.name sha256)).notices at hdeleted
          change (s.drop (d.name sha256)).adding = some a at ha
          rw [drop_notices] at hdeleted
          rw [drop_adding] at ha
          obtain ⟨file, hfile, hheader⟩ := (h _).coming hdeleted a ha hname
          refine ⟨file, ?_, hheader⟩
          change (s.drop (d.name sha256)).dir.lookup (d.name sha256) = some file
          rw [drop_dir]
          exact hfile
        · intro hsettled
          change Function.update s.settled (d.name sha256) false (d.name sha256) = true at hsettled
          rw [Function.update_self] at hsettled
          cases hsettled
        · intro sc hsc hquiet hpresent
          change (s.drop (d.name sha256)).scan = some sc at hsc
          change (s.drop (d.name sha256)).dir.lookup (d.name sha256) ≠ none at hpresent
          rw [drop_scan] at hsc
          rw [drop_dir] at hpresent
          have hq : s.Quiet (d.name sha256) := by
            intro e he
            refine hquiet e ?_
            change e ∈ (s.drop (d.name sha256)).notices
            rw [drop_notices]
            exact he
          refine ((h _).seen sc hsc hq hpresent).imp_right fun hin => hin.imp_right ?_
          rintro ⟨a, ha, hname⟩
          refine ⟨a, ?_, hname⟩
          change (s.drop (d.name sha256)).adding = some a
          rw [drop_adding]
          exact ha
        · intro sc _ hundisturbed
          change Function.update s.undisturbed (d.name sha256) false (d.name sha256) = true at hundisturbed
          rw [Function.update_self] at hundisturbed
          cases hundisturbed
      · refine (h n).same
          { dir := by dsimp only; rw [drop_dir]
            entry := (lookup_drop s _ n).trans (if_neg hn)
            notices := fun e _ => by dsimp only; rw [drop_notices]
            adding := fun a _ => by dsimp only; rw [drop_adding]
            settled := Function.update_of_ne hn _ _
            undisturbed := Function.update_of_ne hn _ _
            scan := fun sc hsc => ⟨sc, by dsimp only at hsc; rwa [drop_scan] at hsc, id, id⟩ }
    · exact h n

/-! ## The invariant -/

@[simp] theorem read_dir (s : Index) (name : Name) (noticed : Bool) :
    (s.read sha256 name noticed).dir = s.dir := by
  unfold Index.read
  split
  · split <;> rfl
  · split <;> rfl

@[simp] theorem read_notices (s : Index) (name : Name) (noticed : Bool) :
    (s.read sha256 name noticed).notices = s.notices := by
  unfold Index.read
  split
  · split <;> rfl
  · split <;> rfl

theorem frame_insert (s : Index) (a : Adding) : (s.insert a).dir = s.dir ∧ (s.insert a).notices = s.notices := by
  unfold Index.insert
  dsimp only
  split
  · split
    · exact ⟨rfl, rfl⟩
    · split <;> exact ⟨rfl, rfl⟩
  · split
    · exact ⟨rfl, rfl⟩
    · constructor
      · dsimp only
        split <;> rfl
      · dsimp only
        split <;> rfl

theorem matched_step {a : IndexAct} (hstep : s.Steps sha256 a s') (h : s.Matched) : s'.Matched := by
  cases moves_of_step hstep with
  | appear name file hnew =>
      refine h.append (e := .added name) (fun n hn => AList.lookup_insert_ne hn) ?_ rfl
      exact congrArg Option.isSome (AList.lookup_insert _)
  | disappear name =>
      refine h.append (e := .deleted name) (fun n hn => AList.lookup_erase_ne hn) ?_ rfl
      exact congrArg Option.isSome (AList.lookup_erase _ _)
  | deleted name rest hadding hnotices => exact h.tail hnotices (drop_dir _ _) (drop_notices _ _)
  | added name rest hadding hnotices => exact h.tail hnotices (read_dir _ _ _) (read_notices _ _ _)
  | openScan => exact h.congr rfl rfl
  | visit name sc hadding hscan =>
      unfold Index.visit
      dsimp only
      split
      · exact h.congr rfl rfl
      · exact h.congr (read_dir _ _ _) (read_notices _ _ _)
  | file a hadding => exact h.congr (frame_insert s a).1 (frame_insert s a).2
  | finish seen hadding hscan =>
      obtain ⟨hdir, hnotices, -⟩ := frame_dropAll (s.entries.keys.filter fun name => !seen.contains name) s
      exact h.congr hdir hnotices
  | remove d =>
      unfold Index.remove
      dsimp only
      split
      · exact h
      · split
        · exact h.congr (drop_dir _ _) (drop_notices _ _)
        · exact h

/-- What neither a change of the directory nor an entry touches; an error is not forgotten. -/
structure Kept (s s' : Index) : Prop where
  maxBytes : s'.maxBytes = s.maxBytes
  failed : s.failed = true → s'.failed = true
  scanning : s'.scan ≠ none → s.scan ≠ none
  undisturbed : s'.undisturbed = s.undisturbed
  complete : s'.complete = s.complete
  settled : s'.settled = s.settled

theorem Kept.rfl : Kept s s := ⟨Eq.refl _, id, id, Eq.refl _, Eq.refl _, Eq.refl _⟩

theorem Kept.trans {s'' : Index} (h : Kept s s') (h' : Kept s' s'') : Kept s s'' where
  maxBytes := h'.maxBytes.trans h.maxBytes
  failed := fun hfailed => h'.failed (h.failed hfailed)
  scanning := fun hscan => h.scanning (h'.scanning hscan)
  undisturbed := h'.undisturbed.trans h.undisturbed
  complete := h'.complete.trans h.complete
  settled := h'.settled.trans h.settled

theorem kept_drop (s : Index) (name : Name) : Kept s (s.drop name) := by
  unfold Index.drop
  split
  · exact .rfl
  · exact ⟨rfl, id, id, rfl, rfl, rfl⟩

theorem kept_dropAll (names : List Name) (s : Index) : Kept s (names.foldl drop s) := by
  induction names generalizing s with
  | nil => exact .rfl
  | cons name names ih => exact (kept_drop s name).trans (ih (s.drop name))

theorem kept_mark (s : Index) (name : Name) : Kept s (s.mark name) where
  maxBytes := rfl
  failed := id
  scanning := by
    intro hscan hnone
    refine hscan ?_
    unfold mark
    rw [hnone]
    rfl
  undisturbed := rfl
  complete := rfl
  settled := rfl

theorem kept_read (s : Index) (name : Name) (noticed : Bool) : Kept s (s.read sha256 name noticed) := by
  unfold Index.read
  split
  · split
    · exact kept_mark s name
    · exact .rfl
  · split
    · exact ⟨rfl, fun _ => rfl, id, rfl, rfl, rfl⟩
    · exact ⟨rfl, id, id, rfl, rfl, rfl⟩

theorem kept_insert (s : Index) (a : Adding) : Kept s (s.insert a) := by
  have hmarked : Kept s (if a.noticed then ({ s with adding := none } : Index).mark a.name
      else { s with adding := none }) := by
    have htaken : Kept s { s with adding := none } := ⟨rfl, id, id, rfl, rfl, rfl⟩
    split
    · exact htaken.trans (kept_mark _ a.name)
    · exact htaken
  unfold Index.insert
  dsimp only
  split
  · split
    · exact ⟨rfl, fun _ => rfl, id, rfl, rfl, rfl⟩
    · exact hmarked
  · split
    · exact ⟨rfl, fun _ => rfl, id, rfl, rfl, rfl⟩
    · exact ⟨hmarked.maxBytes, hmarked.failed, hmarked.scanning, hmarked.undisturbed, hmarked.complete,
        hmarked.settled⟩

theorem kept_visit {sc : Scan} (hscan : s.scan = some sc) (name : Name) : Kept s (s.visit sha256 sc name) := by
  have hseen : Kept s { s with scan := some ⟨sc.owed.filter (· ≠ name), name :: sc.seen⟩ } := by
    refine ⟨rfl, id, fun _ => ?_, rfl, rfl, rfl⟩
    rw [hscan]
    exact nofun
  unfold Index.visit
  dsimp only
  split
  · exact hseen
  · exact hseen.trans (kept_read _ name false)

/-- Only the begin and the end of a scan, and a removal, settle or unsettle names. -/
theorem kept_of_step {a : IndexAct} (hstep : s.Steps sha256 a s') :
    Kept s s' ∨ a = .openScan ∨ a = .finish ∨ ∃ d, a = .remove d := by
  cases moves_of_step hstep with
  | appear name file hnew => exact .inl ⟨rfl, id, id, rfl, rfl, rfl⟩
  | disappear name =>
      refine .inl ⟨rfl, id, ?_, rfl, rfl, rfl⟩
      intro hscan hnone
      refine hscan ?_
      dsimp only
      rw [hnone]
      rfl
  | deleted name rest hadding hnotices =>
      have hread : Kept s { s with notices := rest } := ⟨rfl, id, id, rfl, rfl, rfl⟩
      exact .inl (hread.trans (kept_drop _ name))
  | added name rest hadding hnotices =>
      have hread : Kept s { s with notices := rest } := ⟨rfl, id, id, rfl, rfl, rfl⟩
      exact .inl (hread.trans (kept_read _ name true))
  | visit name sc hadding hscan => exact .inl (kept_visit hscan name)
  | file a hadding => exact .inl (kept_insert s a)
  | openScan => exact .inr (.inl rfl)
  | finish seen hadding hscan => exact .inr (.inr (.inl rfl))
  | remove d => exact .inr (.inr (.inr ⟨d, rfl⟩))

theorem maxBytes_step {a : IndexAct} (hstep : s.Steps sha256 a s') :
    s'.maxBytes = s.maxBytes ∧ (s.failed = true → s'.failed = true) := by
  rcases kept_of_step hstep with hkept | rfl | rfl | ⟨d, rfl⟩
  · exact ⟨hkept.maxBytes, hkept.failed⟩
  · cases moves_of_step hstep with
    | openScan => exact ⟨rfl, id⟩
  · cases moves_of_step hstep with
    | finish seen hadding hscan =>
        have hkept := kept_dropAll (s.entries.keys.filter fun name => !seen.contains name) s
        exact ⟨hkept.maxBytes, hkept.failed⟩
  · cases moves_of_step hstep with
    | remove =>
        unfold Index.remove
        dsimp only
        split
        · exact ⟨rfl, id⟩
        · split
          · have hkept := kept_drop s (d.name sha256)
            exact ⟨hkept.maxBytes, hkept.failed⟩
          · exact ⟨rfl, id⟩

theorem failed_step {a : IndexAct} (hstep : s.Steps sha256 a s') (hok : s'.failed = false) :
    s.failed = false := by
  rcases hfailed : s.failed with _ | _
  · rfl
  · rw [(maxBytes_step hstep).2 hfailed] at hok
    cases hok

theorem fine_step {a : IndexAct} (hstep : s.Steps sha256 a s') (hmatched : s.Matched) (h : ∀ n, Fine sha256 s n)
    (hok : s'.failed = false) (n : Name) : Fine sha256 s' n := by
  cases moves_of_step hstep with
  | appear name file hnew => exact fine_appear h hnew file n
  | disappear name => exact fine_disappear h name n
  | deleted name rest hadding hnotices => exact fine_deleted h hmatched hnotices hadding n
  | added name rest hadding hnotices => exact fine_added h hnotices hadding hok n
  | openScan => exact fine_openScan h n
  | visit name sc hadding hscan => exact fine_visit h hscan hadding hok n
  | file a hadding => exact (filed_insert h hadding hok).fine hadding h n
  | finish seen hadding hscan => exact fine_finish h hscan hadding n
  | remove d => exact fine_remove h d n

/-! ## Runs -/

/-- The invariant of the index. -/
structure Exact (sha256 : List UInt8 → Vector UInt8 32) (s : Index) : Prop where
  accounted : s.Accounted
  matched : s.Matched
  fine : s.failed = false → ∀ n, Fine sha256 s n

theorem exact_initial (dir : AList fun _ : Name => List UInt8) {maxBytes : Int} (hmax : 0 ≤ maxBytes) :
    Exact sha256 (initial dir maxBytes) where
  accounted := ⟨rfl, hmax⟩
  matched := by
    intro pre e rest heq
    cases pre <;> cases heq
  fine := fun _ n =>
    { content := by
        intro _ c hc
        cases hc
      coming := by
        intro _ a ha
        cases ha
      present := by
        intro hsettled
        cases hsettled
      seen := by
        intro sc hsc
        cases hsc
      found := by
        intro sc hsc
        cases hsc }

theorem exact_step {a : IndexAct} (hstep : s.Steps sha256 a s') (h : Exact sha256 s) : Exact sha256 s' where
  accounted := accounted_step hstep h.accounted
  matched := matched_step hstep h.matched
  fine := fun hok n => fine_step hstep h.matched (h.fine (failed_step hstep hok)) hok n

/-- A name that is not removed is settled by the first scan that ends. -/
structure Settling (s : Index) (n : Name) : Prop where
  scanned : s.scan ≠ none → s.undisturbed n = true
  ended : s.complete = true → s.settled n = true

theorem settling_step {a : IndexAct} (hstep : s.Steps sha256 a s')
    (hother : ∀ d, a = .remove d → d.name sha256 ≠ n) (h : s.Settling n) : s'.Settling n := by
  rcases kept_of_step hstep with hkept | rfl | rfl | ⟨d, rfl⟩
  · constructor
    · intro hscan
      rw [hkept.undisturbed]
      exact h.scanned (hkept.scanning hscan)
    · intro hcomplete
      rw [hkept.complete] at hcomplete
      rw [hkept.settled]
      exact h.ended hcomplete
  · cases moves_of_step hstep with
    | openScan => exact ⟨fun _ => rfl, h.ended⟩
  · cases moves_of_step hstep with
    | finish seen hadding hscan =>
        constructor
        · exact fun hscan' => absurd rfl hscan'
        -- the scan that ends settles all that it was not told to forget
        · intro _
          change (s.settled n || s.undisturbed n) = true
          rw [h.scanned (by rw [hscan]; exact nofun), Bool.or_true]
  · cases moves_of_step hstep with
    | remove =>
        unfold Index.remove
        dsimp only
        split
        · exact h
        · split
          · have hn : n ≠ d.name sha256 := (hother d rfl).symm
            have hkept := kept_drop s (d.name sha256)
            constructor
            · intro hscan
              exact (Function.update_of_ne hn _ _).trans (h.scanned (hkept.scanning hscan))
            · intro hcomplete
              have hold : s.complete = true := hkept.complete.symm.trans hcomplete
              exact (Function.update_of_ne hn _ _).trans (h.ended hold)
          · exact h

theorem settling_run {as : List IndexAct} (hrun : Run (Steps sha256) s as s')
    (hother : ∀ d, .remove d ∈ as → d.name sha256 ≠ n) (h : s.Settling n) : s'.Settling n := by
  induction hrun with
  | nil s => exact h
  | cons hstep _ ih =>
      refine ih (fun d hd => hother d (List.mem_cons_of_mem _ hd)) (settling_step hstep ?_ h)
      rintro d rfl
      exact hother d List.mem_cons_self

theorem maxBytes_run {as : List IndexAct} (hrun : Run (Steps sha256) s as s') : s'.maxBytes = s.maxBytes := by
  refine hrun.invariant (fun t => t.maxBytes = s.maxBytes) rfl ?_
  intro t a t' hstep h
  exact (maxBytes_step hstep).1.trans h

/-- The index holds the batch of the name, with its header, if and only if the directory does. -/
structure Agrees (sha256 : List UInt8 → Vector UInt8 32) (s : Index) (n : Name) : Prop where
  content : ∀ c, s.entries.lookup n = some c → Holds sha256 s n c
  present : s.entries.lookup n ≠ none ↔ s.dir.lookup n ≠ none

theorem Fine.content_of_drained (h : Fine sha256 s n) (hdrained : s.Drained) :
    ∀ c, s.entries.lookup n = some c → Holds sha256 s n c := by
  obtain ⟨hnotices, -⟩ := hdrained
  refine h.content ?_
  rw [hnotices]
  exact List.not_mem_nil

theorem Fine.agrees (h : Fine sha256 s n) (hdrained : s.Drained) (hsettled : s.settled n = true) :
    Agrees sha256 s n where
  content := h.content_of_drained hdrained
  present := by
    obtain ⟨hnotices, hadding⟩ := hdrained
    constructor
    · intro hentry
      obtain ⟨c, hc⟩ := Option.ne_none_iff_exists'.1 hentry
      obtain ⟨file, hfile, -⟩ := h.content_of_drained ⟨hnotices, hadding⟩ c hc
      rw [hfile]
      exact nofun
    · intro hpresent
      have hquiet : s.Quiet n := by
        intro e he
        rw [hnotices] at he
        exact absurd he List.not_mem_nil
      rcases h.present hsettled hquiet hpresent with hentry | ⟨a, ha, -⟩
      · exact hentry
      · rw [hadding] at ha
        cases ha

/-- After any run the bytes are those of the entries and within the bound. When no refresh failed
and every notification was read, the index agrees with the directory on every settled name, which
after a whole scan is every name that was not removed. -/
theorem index_exact {dir : AList fun _ : Name => List UInt8} {maxBytes : Int} (hmax : 0 ≤ maxBytes)
    {as : List IndexAct} (hrun : Run (Steps sha256) (initial dir maxBytes) as s) :
    s.metadataBytes = Ledger.total candidateCost s.entries ∧ s.metadataBytes ≤ maxBytes ∧
      (s.failed = false → s.Drained → ∀ n, s.settled n = true → Agrees sha256 s n) ∧
      ∀ n, (∀ d, .remove d ∈ as → d.name sha256 ≠ n) → s.complete = true → s.settled n = true := by
  have hexact := hrun.invariant (Exact sha256) (exact_initial dir hmax) fun _ _ _ hstep => exact_step hstep
  have hbound := maxBytes_run hrun
  refine ⟨hexact.accounted.bytes, ?_, ?_, ?_⟩
  · have hwithin := hexact.accounted.within
    rw [hbound] at hwithin
    exact hwithin
  · intro hok hdrained n hsettled
    exact (hexact.fine hok n).agrees hdrained hsettled
  · intro n hother hcomplete
    have hstart : (initial dir maxBytes).Settling n := by
      constructor
      · exact fun hscan => absurd rfl hscan
      · rintro ⟨⟩
    exact (settling_run hrun hother hstart).ended hcomplete

/-! A directory with one batch, through its first scan. -/

/-- The scan came to the batch and read its header. -/
def comesTo (name : Name) (file : List UInt8) (c : Candidate) (maxBytes : Int) : Index :=
  { initial ((∅ : AList fun _ : Name => List UInt8).insert name file) maxBytes with
    scan := some ⟨[], [name]⟩
    adding := some ⟨name, c, false⟩
    undisturbed := fun _ => true }

def indexed (name : Name) (file : List UInt8) (c : Candidate) (maxBytes : Int) : Index :=
  { initial ((∅ : AList fun _ : Name => List UInt8).insert name file) maxBytes with
    entries := (∅ : AList fun _ : Name => Candidate).insert name c
    metadataBytes := candidateCost c
    complete := true
    undisturbed := fun _ => true
    settled := fun _ => true }

theorem run_indexed {file : List UInt8} {c : Candidate} {maxBytes : Int}
    (hread : readHeader sha256 name file = .ok c)
    (hroom : candidateCost c ≤ maxBytes) :
    Run (Steps sha256) (initial ((∅ : AList fun _ : Name => List UInt8).insert name file) maxBytes)
      [.openScan, .visit name, .file, .finish] (indexed name file c maxBytes) := by
  have hvisit : Steps sha256
      { initial ((∅ : AList fun _ : Name => List UInt8).insert name file) maxBytes with
        scan := some ⟨[name], []⟩
        undisturbed := fun _ => true }
      (.visit name) (comesTo name file c maxBytes) := by
    unfold Steps step Index.visit Index.read initial
    dsimp only
    rw [if_neg (by decide), AList.lookup_empty, AList.lookup_insert]
    dsimp only
    rw [hread, if_neg (by decide)]
    simp [comesTo, initial]
  have hfile : Steps sha256 (comesTo name file c maxBytes) .file
      { comesTo name file c maxBytes with
        adding := none
        entries := (∅ : AList fun _ : Name => Candidate).insert name c
        metadataBytes := candidateCost c } := by
    unfold Steps step Index.insert comesTo initial
    dsimp only
    rw [AList.lookup_empty]
    dsimp only
    rw [zero_add, if_neg (not_lt.2 hroom), if_neg (by decide)]
  refine .cons rfl (.cons hvisit (.cons hfile (.cons ?_ (.nil _))))
  unfold Steps step Index.finish comesTo initial
  dsimp only
  rw [if_neg (by decide)]
  have hkeys : ((∅ : AList fun _ : Name => Candidate).insert name c).keys.filter
      (fun n => !([name] : List Name).contains n) = [] := by
    simp
  rw [hkeys]
  rfl

theorem index_exact_sample :
    (indexed ((sample noDigest).name noDigest) sampleRaw (sample noDigest).candidate 1024).metadataBytes = 528 ∧
      Agrees noDigest (indexed ((sample noDigest).name noDigest) sampleRaw (sample noDigest).candidate 1024)
        ((sample noDigest).name noDigest) := by
  have hrun := run_indexed sampleRaw_header (show candidateCost (sample noDigest).candidate ≤ 1024 by decide)
  obtain ⟨hbytes, -, hagrees, hsettled⟩ := index_exact (by decide) hrun
  exact ⟨by decide, hagrees rfl ⟨rfl, rfl⟩ _ (hsettled _ (by simp) rfl)⟩

/-- A removal is taken at its word: until the next whole scan the batch is not indexed. -/
theorem removed_not_indexed :
    ∃ s, Run (Steps noDigest)
        (initial ((∅ : AList fun _ : Name => List UInt8).insert
          ((sample noDigest).name noDigest) sampleRaw) 1024)
        [.openScan, .visit ((sample noDigest).name noDigest), .file, .finish, .remove (sample noDigest)] s ∧
      s.complete = true ∧ s.failed = false ∧ s.Drained ∧
        s.dir.lookup ((sample noDigest).name noDigest) = some sampleRaw ∧
          s.entries.lookup ((sample noDigest).name noDigest) = none := by
  have hrun := run_indexed sampleRaw_header (show candidateCost (sample noDigest).candidate ≤ 1024 by decide)
  have hremoved : (indexed ((sample noDigest).name noDigest) sampleRaw (sample noDigest).candidate 1024).remove
      noDigest (sample noDigest) =
      { (indexed ((sample noDigest).name noDigest) sampleRaw (sample noDigest).candidate 1024).drop
          ((sample noDigest).name noDigest) with
        undisturbed := Function.update (fun _ => true) ((sample noDigest).name noDigest) false
        settled := Function.update (fun _ => true) ((sample noDigest).name noDigest) false } := by
    unfold Index.remove
    dsimp only
    rw [show (indexed ((sample noDigest).name noDigest) sampleRaw
      (sample noDigest).candidate 1024).entries.lookup
      ((sample noDigest).name noDigest) = some (sample noDigest).candidate from AList.lookup_insert _]
    dsimp only
    rw [if_pos (by decide)]
    rfl
  have hlast : Run (Steps noDigest)
      (indexed ((sample noDigest).name noDigest) sampleRaw (sample noDigest).candidate 1024)
      [.remove (sample noDigest)] _ := .cons rfl (.nil _)
  refine ⟨_, hrun.append hlast, ?_⟩
  rw [hremoved]
  refine ⟨(kept_drop _ _).complete, drop_failed _ _, ⟨drop_notices _ _, drop_adding _ _⟩, ?_, ?_⟩
  · dsimp only
    rw [drop_dir]
    exact AList.lookup_insert _
  · dsimp only
    rw [lookup_drop, if_pos rfl]

end Index

end MarketInfo.Spool
