import MarketInfo.Orderbook.Invariant

/-! # Books that follow an ordered stream

What the collectors have in common. A follower has a book and the id of the last
update in it. A message seeds the book, leaves it alone, applies the update that
comes next in the true stream, or leaves the book invalid. Whatever a machine
with these moves is given, a valid book is the last accepted snapshot followed by
every later update of the stream.
-/

namespace MarketInfo

namespace Sequencing

variable {υ κ μ : Type}

/-! ## Ordered streams -/

/-- The updates of a stream after one id, up to another. -/
def between (key : υ → Int64) (stream : List υ) (lo hi : Int64) : List υ :=
  stream.filter fun u => decide (lo < key u ∧ key u ≤ hi)

/-- The first update of the stream after an id. -/
structure Next (key : υ → Int64) (stream : List υ) (last : Int64) (u : υ) : Prop where
  mem : u ∈ stream
  later : last < key u
  first : ∀ v ∈ stream, last < key v → key u ≤ key v

/-- Strictly increasing ids. -/
@[reducible] def Ordered (key : υ → Int64) (stream : List υ) : Prop :=
  stream.Pairwise fun u v => key u < key v

theorem between_self (key : υ → Int64) (stream : List υ) (lo : Int64) :
    between key stream lo lo = [] := by
  unfold between
  rw [List.filter_eq_nil_iff]
  intro u _ h
  have hu := of_decide_eq_true h
  exact Int64.lt_irrefl (Int64.lt_of_lt_of_le hu.1 hu.2)

/-- The next update extends what is already followed by one. -/
theorem between_next {key : υ → Int64} {stream : List υ} (hord : Ordered key stream)
    {lo last : Int64} (hlo : lo ≤ last) {u : υ} (hu : Next key stream last u) :
    between key stream lo (key u) = between key stream lo last ++ [u] := by
  obtain ⟨front, back, rfl⟩ := List.append_of_mem hu.mem
  obtain ⟨-, hback, hcross⟩ := List.pairwise_append.1 hord
  obtain ⟨hubefore, -⟩ := List.pairwise_cons.1 hback
  -- what stands before the next update is followed already
  have hfront : ∀ v ∈ front, key v ≤ last := by
    intro v hv
    by_contra hlt
    have hle := hu.first v (List.mem_append_left _ hv) (Int64.not_le.1 hlt)
    have hvu := hcross v hv u (List.mem_cons_self ..)
    exact Int64.lt_irrefl (Int64.lt_of_lt_of_le hvu hle)
  have hbacknil : ∀ hi : Int64, hi ≤ key u →
      back.filter (fun v => decide (lo < key v ∧ key v ≤ hi)) = [] := by
    intro hi hhi
    rw [List.filter_eq_nil_iff]
    intro v hv h
    have hle := (of_decide_eq_true h).2
    exact Int64.lt_irrefl (Int64.lt_of_lt_of_le (hubefore v hv) (Int64.le_trans hle hhi))
  have hsame : front.filter (fun v => decide (lo < key v ∧ key v ≤ key u)) =
      front.filter fun v => decide (lo < key v ∧ key v ≤ last) := by
    refine List.filter_congr ?_
    intro v hv
    rw [decide_eq_decide]
    constructor
    · rintro ⟨h, -⟩
      exact ⟨h, hfront v hv⟩
    · rintro ⟨h, -⟩
      exact ⟨h, Int64.le_trans (hfront v hv) (Int64.le_of_lt hu.later)⟩
  have hin : (u :: back).filter (fun v => decide (lo < key v ∧ key v ≤ key u)) = [u] := by
    rw [List.filter_cons_of_pos, hbacknil _ (Int64.le_refl _)]
    rw [decide_eq_true_eq]
    exact ⟨Int64.lt_of_le_of_lt hlo hu.later, Int64.le_refl _⟩
  have hout : (u :: back).filter (fun v => decide (lo < key v ∧ key v ≤ last)) = [] := by
    rw [List.filter_cons_of_neg, hbacknil _ (Int64.le_of_lt hu.later)]
    rw [decide_eq_true_eq]
    rintro ⟨-, hle⟩
    exact Int64.lt_irrefl (Int64.lt_of_lt_of_le hu.later hle)
  unfold between
  rw [List.filter_append, List.filter_append, hsame, hin, hout, List.append_nil]

/-- In an ordered stream the smaller id stands before. -/
theorem before_of_lt {key : υ → Int64} {stream : List υ} {R : υ → υ → Prop}
    (h : stream.Pairwise fun v u => key v < key u ∧ R v u) {u v : υ} (hu : u ∈ stream)
    (hv : v ∈ stream) (hlt : key v < key u) : R v u := by
  obtain ⟨front, back, rfl⟩ := List.append_of_mem hu
  obtain ⟨-, hback, hcross⟩ := List.pairwise_append.1 h
  rcases List.mem_append.1 hv with hv | hv
  · exact (hcross v hv u (List.mem_cons_self ..)).2
  · rcases List.mem_cons.1 hv with rfl | hv
    · exact absurd hlt Int64.lt_irrefl
    · have hgt := ((List.pairwise_cons.1 hback).1 v hv).1
      exact absurd (Int64.lt_trans hlt hgt) Int64.lt_irrefl

theorem next_of_before {key : υ → Int64} {stream : List υ} {last : Int64} {u : υ} (hu : u ∈ stream)
    (hlater : last < key u) (hbefore : ∀ v ∈ stream, key v < key u → key v ≤ last) :
    Next key stream last u := by
  refine ⟨hu, hlater, ?_⟩
  intro v hv hlast
  by_contra hlt
  exact Int64.lt_irrefl (Int64.lt_of_lt_of_le hlast (hbefore v hv (Int64.not_le.1 hlt)))

/-! ## Books -/

/-- Every change set was applied, in order, and left the book valid. -/
inductive Applies : Book → List ChangeSet → Book → Prop where
  | seeded (b : Book) : Applies b [] b
  | concat {b b' : Book} {us : List ChangeSet} {u : ChangeSet} : Applies b us b' →
      (b'.applyChanges b'.sequence u).2 = .ok () →
      (b'.applyChanges b'.sequence u).1.state = .valid →
      Applies b (us ++ [u]) (b'.applyChanges b'.sequence u).1

/-- A snapshot overwrites all but the identity of the book. -/
theorem applySnapshot_of_same {b b₀ : Book} (hid : b.instrumentID = b₀.instrumentID)
    (hretained : b.retainedDepth = b₀.retainedDepth) {s : BookSnapshot}
    (hok : (b.applySnapshot s).2 = .ok ()) :
    (b₀.applySnapshot s).2 = .ok () ∧ (b₀.applySnapshot s).1 = (b.applySnapshot s).1 := by
  obtain ⟨hs, hvalid⟩ := Book.applySnapshot_eq_ok.1 hok
  have hvalid₀ : ValidSnapshot s b₀.retainedDepth := by
    rw [← hretained]
    exact hvalid
  refine ⟨Book.applySnapshot_eq_ok.2 ⟨hs.trans hid, hvalid₀⟩, ?_⟩
  unfold Book.applySnapshot
  rw [if_neg (not_not.2 hs), if_neg (not_not.2 (hs.trans hid)), validate_eq_ok.2 hvalid,
    validate_eq_ok.2 hvalid₀, hid, hretained]

theorem applySnapshot_valid {b : Book} {s : BookSnapshot} (hok : (b.applySnapshot s).2 = .ok ()) :
    (b.applySnapshot s).1.state = .valid ∧ (b.applySnapshot s).1.sequence = s.sequence ∧
      (b.applySnapshot s).1.instrumentID = b.instrumentID ∧
      (b.applySnapshot s).1.retainedDepth = b.retainedDepth := by
  have h := Book.applySnapshot_seeded hok
  exact ⟨h.valid, h.sequence, h.instrument, h.retained⟩

/-! ## Moves -/

/-- What a message is to the book. -/
inductive Event (υ : Type) where
  | seed (s : BookSnapshot)
  | update (u : υ)
  | other

/-- A book and the id of the last update in it. -/
structure Follower where
  book : Book
  last : Int64

inductive Move (key : υ → Int64) (changes : υ → ChangeSet) (stream : List υ) (f : Follower) :
    Event υ → Except String Unit → Follower → Prop where
  | seeded (s : BookSnapshot) : (f.book.applySnapshot s).2 = .ok () →
      Move key changes stream f (.seed s) (.ok ()) ⟨(f.book.applySnapshot s).1, s.sequence⟩
  | rejected (s : BookSnapshot) (e : String) : Move key changes stream f (.seed s) (.error e) f
  | kept (r : Except String Unit) : Move key changes stream f .other r f
  | skipped (u : υ) (r : Except String Unit) : key u ≤ f.last →
      Move key changes stream f (.update u) r f
  | applied (u : υ) (r : Except String Unit) : Next key stream f.last u →
      (f.book.applyChanges f.last (changes u)).2 = .ok () →
      Move key changes stream f (.update u) r ⟨(f.book.applyChanges f.last (changes u)).1, key u⟩
  | failed (event : Event υ) (r : Except String Unit) (f' : Follower) :
      (∀ s, event = .seed s → r ≠ .ok ()) → f'.book.state ≠ .valid →
      f'.book.instrumentID = f.book.instrumentID → f'.book.retainedDepth = f.book.retainedDepth →
      Move key changes stream f event r f'

/-- A collector: its step, what a message is to it, and what it follows. -/
structure Machine (κ μ υ : Type) where
  step : κ → μ → κ × Except String Unit
  event : μ → Event υ
  view : κ → Follower

/-- A collector with the last snapshot it accepted and the updates it was given
since. -/
structure Track (κ υ : Type) where
  collector : κ
  base : Option BookSnapshot := none
  received : List υ := []

/-- The last accepted snapshot. -/
def baseAfter (event : Event υ) (r : Except String Unit) (base : Option BookSnapshot) :
    Option BookSnapshot :=
  match event, r with
  | .seed s, .ok () => some s
  | _, _ => base

/-- The updates given since. -/
def receivedAfter (event : Event υ) (r : Except String Unit) (received : List υ) : List υ :=
  match event, r with
  | .seed _, .ok () => []
  | .update u, _ => received ++ [u]
  | _, _ => received

namespace Machine

def track (m : Machine κ μ υ) (t : Track κ υ) (msg : μ) : Track κ υ :=
  let r := m.step t.collector msg
  { collector := r.1
    base := baseAfter (m.event msg) r.2 t.base
    received := receivedAfter (m.event msg) r.2 t.received }

def run (m : Machine κ μ υ) (t : Track κ υ) (msgs : List μ) : Track κ υ := msgs.foldl m.track t

end Machine

/-! ## Runs -/

variable {key : υ → Int64} {changes : υ → ChangeSet} {stream : List υ}

/-- The book is the snapshot followed by all that comes after it in the stream,
and nothing given since is beyond it. -/
structure InSequence (key : υ → Int64) (changes : υ → ChangeSet) (stream : List υ) (b₀ : Book)
    (f : Follower) (received : List υ) (s : BookSnapshot) : Prop where
  seeded : (b₀.applySnapshot s).2 = .ok ()
  contents : Applies (b₀.applySnapshot s).1 ((between key stream s.sequence f.last).map changes) f.book
  delivered : (between key stream s.sequence f.last).Sublist received
  latest : ∀ u ∈ received, key u ≤ f.last
  sequence : f.book.sequence = f.last
  after : s.sequence ≤ f.last

structure Inv (key : υ → Int64) (changes : υ → ChangeSet) (stream : List υ) (b₀ : Book)
    (f : Follower) (base : Option BookSnapshot) (received : List υ) : Prop where
  instrument : f.book.instrumentID = b₀.instrumentID
  retained : f.book.retainedDepth = b₀.retainedDepth
  valid : f.book.state = .valid →
    ∃ s, base = some s ∧ InSequence key changes stream b₀ f received s

theorem inv_new {b₀ : Book} {f : Follower} (hbook : f.book = b₀) (hstate : b₀.state ≠ .valid)
    (received : List υ) : Inv key changes stream b₀ f none received := by
  refine ⟨by rw [hbook], by rw [hbook], ?_⟩
  intro hvalid
  rw [hbook] at hvalid
  exact absurd hvalid hstate

/-- A book that is not valid takes no changes. -/
theorem applyChanges_of_not_valid {b : Book} {expected : Int64} {u : ChangeSet}
    (hstate : b.state ≠ .valid) : (b.applyChanges expected u).2 ≠ .ok () := by
  intro hok
  rcases Book.applyChanges_cases b expected u with ⟨e, he, -⟩ | ⟨hcheck, -, -, -⟩
  · rw [hok] at he
    cases he
  · exact hstate (Book.checkChanges_eq_ok.1 hcheck).2.2.1

/-- A rejected snapshot leaves the book as it is. -/
theorem applySnapshot_error {b : Book} {s : BookSnapshot} {e : String}
    (h : (b.applySnapshot s).2 = .error e) : (b.applySnapshot s).1 = b := by
  unfold Book.applySnapshot at h ⊢
  split at h
  · rename_i hid
    rw [if_pos hid]
  · rename_i hid
    rw [if_neg hid]
    split at h
    · rfl
    · cases h

/-- Changes keep the identity of the book. -/
theorem applyChanges_identity (b : Book) (expected : Int64) (u : ChangeSet) :
    (b.applyChanges expected u).1.instrumentID = b.instrumentID ∧
      (b.applyChanges expected u).1.retainedDepth = b.retainedDepth := by
  unfold Book.applyChanges
  split
  · exact ⟨rfl, rfl⟩
  · dsimp only
    split
    · exact ⟨rfl, rfl⟩
    · split
      · exact ⟨rfl, rfl⟩
      · exact ⟨rfl, rfl⟩

/-- What an accepted change set keeps, and what it shows of the state before. -/
theorem applyChanges_ok {b : Book} {expected : Int64} {u : ChangeSet}
    (hok : (b.applyChanges expected u).2 = .ok ()) :
    b.state = .valid ∧ b.sequence = expected ∧
      (b.applyChanges expected u).1.instrumentID = b.instrumentID ∧
      (b.applyChanges expected u).1.retainedDepth = b.retainedDepth ∧
      ((b.applyChanges expected u).1.state = .valid →
        (b.applyChanges expected u).1.sequence = u.sequence) := by
  rcases Book.applyChanges_cases b expected u with ⟨e, he, -⟩ | ⟨hcheck, -, -, happ⟩
  · rw [hok] at he
    cases he
  · obtain ⟨-, -, hvalid, hseq⟩ := Book.checkChanges_eq_ok.1 hcheck
    refine ⟨hvalid, hseq, happ.instrument, happ.retained, ?_⟩
    intro hstill
    by_cases hshallow : b.Shallow u
    · rw [(happ.invalid hshallow).1] at hstill
      cases hstill
    · exact (happ.valid hshallow).2.1

/-- Changes that were accepted have a later id. -/
theorem applyChanges_later {b : Book} {expected : Int64} {u : ChangeSet}
    (hok : (b.applyChanges expected u).2 = .ok ()) : expected < u.sequence := by
  rcases Book.applyChanges_cases b expected u with ⟨e, he, -⟩ | ⟨hcheck, -, -, -⟩
  · rw [hok] at he
    cases he
  · exact (Book.checkChanges_eq_ok.1 hcheck).1.2

theorem inv_move (hord : Ordered key stream) (hchanges : ∀ u, (changes u).sequence = key u)
    {b₀ : Book} {f f' : Follower} {event : Event υ} {r : Except String Unit}
    {base : Option BookSnapshot} {received : List υ} (hmove : Move key changes stream f event r f')
    (hinv : Inv key changes stream b₀ f base received) :
    Inv key changes stream b₀ f' (baseAfter event r base) (receivedAfter event r received) := by
  cases hmove with
  | seeded s hok =>
      obtain ⟨hvalid, hseq, hid, hret⟩ := applySnapshot_valid hok
      obtain ⟨hok₀, hsame⟩ := applySnapshot_of_same hinv.instrument hinv.retained hok
      refine ⟨hid.trans hinv.instrument, hret.trans hinv.retained, ?_⟩
      intro _
      refine ⟨s, rfl, hok₀, ?_, ?_, ?_, hseq, Int64.le_refl _⟩
      · rw [between_self, hsame]
        exact .seeded _
      · rw [between_self]
        exact List.nil_sublist _
      · intro u hu
        cases hu
  | rejected s e => exact hinv
  | kept r => exact hinv
  | skipped u r hle =>
      refine ⟨hinv.instrument, hinv.retained, ?_⟩
      intro hvalid
      obtain ⟨s, hs, h⟩ := hinv.valid hvalid
      refine ⟨s, hs, h.seeded, h.contents, h.delivered.trans (List.sublist_append_left _ _), ?_,
        h.sequence, h.after⟩
      intro v hv
      rcases List.mem_append.1 hv with hv | hv
      · exact h.latest v hv
      · rw [List.mem_singleton.1 hv]
        exact hle
  | applied u r hnext hok =>
      obtain ⟨hvalid, hseq, hid, hret, hsequence⟩ := applyChanges_ok hok
      refine ⟨hid.trans hinv.instrument, hret.trans hinv.retained, ?_⟩
      intro hstill
      obtain ⟨s, hs, h⟩ := hinv.valid hvalid
      have hbetween := between_next hord h.after hnext
      refine ⟨s, hs, h.seeded, ?_, ?_, ?_, ?_, ?_⟩
      · rw [hbetween, List.map_append]
        have hcontents := h.contents
        rw [← hseq] at hok hstill hcontents ⊢
        exact .concat hcontents hok hstill
      · rw [hbetween]
        exact h.delivered.append (List.Sublist.refl [u])
      · intro v hv
        rcases List.mem_append.1 hv with hv | hv
        · exact Int64.le_trans (h.latest v hv) (Int64.le_of_lt hnext.later)
        · rw [List.mem_singleton.1 hv]
          exact Int64.le_refl _
      · rw [← hchanges]
        exact hsequence hstill
      · exact Int64.le_trans h.after (Int64.le_of_lt hnext.later)
  | failed _ _ _ _ hstate hid hret =>
      refine ⟨hid.trans hinv.instrument, hret.trans hinv.retained, ?_⟩
      intro hvalid
      exact absurd hvalid hstate

/-- A book becomes valid only with an accepted snapshot. -/
theorem move_not_valid {f f' : Follower} {event : Event υ} {r : Except String Unit}
    (hmove : Move key changes stream f event r f') (hstate : f.book.state ≠ .valid) :
    f'.book.state ≠ .valid ∨ ∃ s, event = .seed s ∧ r = .ok () := by
  cases hmove with
  | seeded s _ => exact Or.inr ⟨s, rfl, rfl⟩
  | rejected => exact Or.inl hstate
  | kept => exact Or.inl hstate
  | skipped => exact Or.inl hstate
  | applied u r _ hok => exact absurd hok (applyChanges_of_not_valid hstate)
  | failed _ _ _ _ hstate' => exact Or.inl hstate'

/-- An update that does not come next leaves the book invalid. -/
theorem move_gap {f f' : Follower} {u v : υ} {r : Except String Unit}
    (hmove : Move key changes stream f (.update u) r f') (hv : v ∈ stream) (hlast : f.last < key v)
    (hgap : key v < key u) : f'.book.state ≠ .valid := by
  cases hmove with
  | skipped _ _ hle =>
      exact absurd (Int64.lt_of_lt_of_le (Int64.lt_of_lt_of_le hlast (Int64.le_of_lt hgap)) hle)
        Int64.lt_irrefl
  | applied _ _ hnext _ =>
      exact absurd (Int64.lt_of_lt_of_le hgap (hnext.first v hv hlast)) Int64.lt_irrefl
  | failed _ _ _ _ hstate => exact hstate

/-! ## Machines -/

/-- The steps of a machine are moves, as long as its own invariant holds. -/
structure Machine.Follows (m : Machine κ μ υ) (key : υ → Int64) (changes : υ → ChangeSet)
    (stream : List υ) (ok : κ → Prop) : Prop where
  ordered : Ordered key stream
  sequence : ∀ u, (changes u).sequence = key u
  move : ∀ c msg, ok c → (∀ u, m.event msg = .update u → u ∈ stream) →
    Move key changes stream (m.view c) (m.event msg) (m.step c msg).2 (m.view (m.step c msg).1)
  keeps : ∀ c msg, ok c → (∀ u, m.event msg = .update u → u ∈ stream) → ok (m.step c msg).1

namespace Machine

variable {m : Machine κ μ υ} {ok : κ → Prop}

/-- What is true of a machine at any time. -/
structure Good (m : Machine κ μ υ) (key : υ → Int64) (changes : υ → ChangeSet) (stream : List υ)
    (ok : κ → Prop) (b₀ : Book) (t : Track κ υ) : Prop where
  ok : ok t.collector
  inv : Inv key changes stream b₀ (m.view t.collector) t.base t.received

theorem good_track (h : m.Follows key changes stream ok) {b₀ : Book} {t : Track κ υ} {msg : μ}
    (hmsg : ∀ u, m.event msg = .update u → u ∈ stream) (ht : Good m key changes stream ok b₀ t) :
    Good m key changes stream ok b₀ (m.track t msg) := by
  exact ⟨h.keeps _ _ ht.ok hmsg, inv_move h.ordered h.sequence (h.move _ _ ht.ok hmsg) ht.inv⟩

theorem good_run (h : m.Follows key changes stream ok) {b₀ : Book} {t : Track κ υ} {msgs : List μ}
    (hmsgs : ∀ msg ∈ msgs, ∀ u, m.event msg = .update u → u ∈ stream)
    (ht : Good m key changes stream ok b₀ t) :
    Good m key changes stream ok b₀ (m.run t msgs) := by
  induction msgs generalizing t with
  | nil => exact ht
  | cons msg rest ih =>
      refine ih (fun msg' hmsg' => hmsgs msg' (List.mem_cons_of_mem _ hmsg')) ?_
      exact good_track h (hmsgs msg (List.mem_cons_self ..)) ht

/-- A book that is not valid becomes so only with an accepted snapshot. -/
theorem snapshot_of_valid (h : m.Follows key changes stream ok) {t : Track κ υ} {msgs : List μ}
    (hmsgs : ∀ msg ∈ msgs, ∀ u, m.event msg = .update u → u ∈ stream) (hok : ok t.collector)
    (hstate : (m.view t.collector).book.state ≠ .valid)
    (hvalid : (m.view (m.run t msgs).collector).book.state = .valid) :
    ∃ pre msg s post, msgs = pre ++ msg :: post ∧ m.event msg = .seed s ∧
      (m.step (m.run t pre).collector msg).2 = .ok () := by
  induction msgs generalizing t with
  | nil => exact absurd hvalid hstate
  | cons msg rest ih =>
      have hmsg := hmsgs msg (List.mem_cons_self ..)
      have hcollector : (m.track t msg).collector = (m.step t.collector msg).1 := rfl
      rcases move_not_valid (h.move _ _ hok hmsg) hstate with hstill | ⟨s, hs, hr⟩
      · obtain ⟨pre, msg', s, post, rfl, hs, hr⟩ := ih (t := m.track t msg)
          (fun msg' hmsg' => hmsgs msg' (List.mem_cons_of_mem _ hmsg'))
          (by rw [hcollector]; exact h.keeps _ _ hok hmsg)
          (by rw [hcollector]; exact hstill) hvalid
        exact ⟨msg :: pre, msg', s, post, rfl, hs, hr⟩
      · exact ⟨[], msg, s, rest, rfl, hs, hr⟩

/-- What a collector owes: a valid book is the last accepted snapshot with every
later update of the stream up to the latest one received, in order; and a gap
makes the book invalid until a snapshot is accepted. -/
structure Sequenced (m : Machine κ μ υ) (key : υ → Int64) (changes : υ → ChangeSet)
    (stream : List υ) (b₀ : Book) (t : Track κ υ) : Prop where
  valid : (m.view t.collector).book.state = .valid →
    ∃ s, t.base = some s ∧
      InSequence key changes stream b₀ (m.view t.collector) t.received s
  gap : ∀ msg u v, m.event msg = .update u → u ∈ stream → v ∈ stream →
    (m.view t.collector).last < key v → key v < key u →
      ∀ more, (∀ msg' ∈ more, ∀ u', m.event msg' = .update u' → u' ∈ stream) →
        (m.view (m.run (m.track t msg) more).collector).book.state = .valid →
          ∃ pre msg' s post, more = pre ++ msg' :: post ∧ m.event msg' = .seed s ∧
            (m.step (m.run (m.track t msg) pre).collector msg').2 = .ok ()

theorem sequenced_of_good (h : m.Follows key changes stream ok) {b₀ : Book} {t : Track κ υ}
    (ht : Good m key changes stream ok b₀ t) : Sequenced m key changes stream b₀ t := by
  refine ⟨ht.inv.valid, ?_⟩
  intro msg u v hevent hu hv hlast hgap more hmore hvalid
  have hmsg : ∀ u', m.event msg = .update u' → u' ∈ stream := by
    intro u' hu'
    rw [hevent] at hu'
    obtain rfl := Event.update.inj hu'
    exact hu
  have hcollector : (m.track t msg).collector = (m.step t.collector msg).1 := rfl
  have hmove := h.move _ _ ht.ok hmsg
  rw [hevent] at hmove
  refine snapshot_of_valid h hmore ?_ ?_ hvalid
  · rw [hcollector]
    exact h.keeps _ _ ht.ok hmsg
  · rw [hcollector]
    exact move_gap hmove hv hlast hgap

end Machine

end Sequencing

end MarketInfo
