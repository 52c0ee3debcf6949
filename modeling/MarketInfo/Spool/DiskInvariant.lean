import MarketInfo.Spool.Disk

/-! # What every disk of a queue satisfies

Whatever a crash may leave under the name of a delivery is a synced file that can be
read as a delivery of that name.
-/

namespace MarketInfo.Spool

variable {sha256 : List UInt8 → Vector UInt8 32} {z : Zlib} {d d' : Disk}

/-! ## Names -/

def IsBatch (sha256 : List UInt8 → Vector UInt8 32) (n : Name) : Prop := ∃ x : Delivery, n = x.name sha256

theorem isBatch_name (x : Delivery) : IsBatch sha256 (x.name sha256) := ⟨x, rfl⟩

theorem hexDigit_ne_dot {n : UInt8} (h : n < 16) : hexDigit n ≠ 46 := by
  intro hdot
  have hn : n.toNat < 16 := UInt8.lt_iff_toNat_lt.1 h
  unfold hexDigit at hdot
  split at hdot
  · have hnat : (48 + n.toNat) % 256 = 46 := congrArg UInt8.toNat hdot
    omega
  · have hnat : (87 + n.toNat) % 256 = 46 := congrArg UInt8.toNat hdot
    omega

/-- The name of a delivery starts with a hexadecimal digit. -/
theorem IsBatch.not_pending {n : Name} (h : IsBatch sha256 n) : ¬ pendingPrefix <+: n := by
  obtain ⟨x, rfl⟩ := h
  unfold Delivery.name
  have hlength : (sha256 (x.database ++ 0 :: x.kind ++ 0 :: x.id)).toList.length = 32 := Vector.length_toList
  generalize (sha256 (x.database ++ 0 :: x.kind ++ 0 :: x.id)).toList = a at hlength
  rcases a with _ | ⟨b, a⟩
  · cases hlength
  · intro hstart
    obtain ⟨rest, hrest⟩ := hstart
    have hfirst : (46 : UInt8) = hexDigit (b / 16) := (List.cons.inj hrest).1
    have hlt : b / 16 < 16 := by
      rw [UInt8.lt_iff_toNat_lt]
      show b.toNat / 16 < 16
      have := b.toNat_lt
      omega
    exact hexDigit_ne_dot hlt hfirst.symm

theorem IsBatch.ne {n tmp : Name} (h : IsBatch sha256 n) (htmp : pendingPrefix <+: tmp) : n ≠ tmp := by
  rintro rfl
  exact h.not_pending htmp

/-! ## Changes of the directory -/

namespace Disk

theorem lookup_link (d : Disk) (n m : Name) (v : Option Nat) :
    (d.link n v).lookup m = if m = n then v else d.lookup m := by
  by_cases h : m = n
  · rw [if_pos h, h]
    cases v with
    | none => exact AList.lookup_erase n d.names
    | some i => exact AList.lookup_insert d.names
  · rw [if_neg h]
    cases v with
    | none => exact AList.lookup_erase_ne h
    | some i => exact AList.lookup_insert_ne h

theorem lookup_link_ne (d : Disk) {n m : Name} (v : Option Nat) (h : m ≠ n) :
    (d.link n v).lookup m = d.lookup m := by
  rw [lookup_link, if_neg h]

@[simp] theorem lookup_link_self (d : Disk) (n : Name) (v : Option Nat) : (d.link n v).lookup n = v := by
  rw [lookup_link, if_pos rfl]

theorem stable_link (d : Disk) (n m : Name) (v : Option Nat) :
    (d.link n v).stable m = if m = n then v :: d.stable n else d.stable m := by
  unfold link
  cases v with
  | none => exact Function.update_apply _ _ _ _
  | some i => exact Function.update_apply _ _ _ _

theorem stable_link_ne (d : Disk) {n m : Name} (v : Option Nat) (h : m ≠ n) :
    (d.link n v).stable m = d.stable m := by
  rw [stable_link, if_neg h]

@[simp] theorem files_link (d : Disk) (n : Name) (v : Option Nat) : (d.link n v).files = d.files := by
  cases v with
  | none => rfl
  | some i => rfl

@[simp] theorem next_link (d : Disk) (n : Name) (v : Option Nat) : (d.link n v).next = d.next := by
  cases v with
  | none => rfl
  | some i => rfl

theorem files_create_of_lt (d : Disk) {i : Nat} (h : i < d.next) : d.create.files i = d.files i :=
  Function.update_of_ne (Nat.ne_of_lt h) _ _

theorem bytes_syncFile (d : Disk) (f i : Nat) : ((d.syncFile f).files i).bytes = (d.files i).bytes := by
  unfold syncFile
  dsimp only
  rw [Function.update_apply]
  split
  · rename_i heq
    rw [heq]
  · rfl

theorem synced_syncFile (d : Disk) {f i : Nat} (h : (d.files i).synced = true) :
    ((d.syncFile f).files i).synced = true := by
  unfold syncFile
  dsimp only
  rw [Function.update_apply]
  split
  · rfl
  · exact h

end Disk

/-! ## The invariant -/

/-- The file can be read as a delivery of the name. -/
def Reads (sha256 : List UInt8 → Vector UInt8 32) (z : Zlib) (d : Disk) (i : Nat) (n : Name) : Prop :=
  ∃ old, Unmarshal sha256 z (d.files i).bytes = .ok old ∧ old.name sha256 = n

structure Sound (sha256 : List UInt8 → Vector UInt8 32) (z : Zlib) (d : Disk) : Prop where
  current : ∀ n, d.lookup n ∈ d.stable n
  bounded : ∀ n i, some i ∈ d.stable n → i < d.next
  stored : ∀ n i, IsBatch sha256 n → some i ∈ d.stable n →
    (d.files i).synced = true ∧ Reads sha256 z d i n

theorem Sound.lt (h : Sound sha256 z d) {n : Name} {i : Nat} (hi : d.lookup n = some i) : i < d.next :=
  h.bounded n i (hi ▸ h.current n)

/-- The file of no delivery, now or after a crash. -/
def Private (sha256 : List UInt8 → Vector UInt8 32) (d : Disk) (i : Nat) : Prop :=
  ∀ n, IsBatch sha256 n → some i ∉ d.stable n

theorem sound_empty : Sound sha256 z {} := by
  constructor
  · intro n
    exact List.mem_singleton.2 rfl
  · intro n i hi
    cases List.mem_singleton.1 hi
  · intro n i _ hi
    cases List.mem_singleton.1 hi

theorem Sound.link (h : Sound sha256 z d) {n : Name} {v : Option Nat}
    (hv : ∀ i, v = some i → i < d.next ∧
      (IsBatch sha256 n → (d.files i).synced = true ∧ Reads sha256 z d i n)) :
    Sound sha256 z (d.link n v) := by
  constructor
  · intro m
    rw [Disk.lookup_link, Disk.stable_link]
    split
    · exact List.mem_cons_self
    · exact h.current m
  · intro m i hi
    rw [Disk.stable_link] at hi
    rw [Disk.next_link]
    split at hi
    · rcases List.mem_cons.1 hi with heq | hold
      · exact (hv i heq.symm).1
      · exact h.bounded n i hold
    · exact h.bounded m i hi
  · intro m i hm hi
    rw [Disk.stable_link] at hi
    unfold Reads
    rw [Disk.files_link]
    split at hi
    · rename_i heq
      rw [heq] at hm ⊢
      rcases List.mem_cons.1 hi with hnew | hold
      · exact (hv i hnew.symm).2 hm
      · exact h.stored n i hm hold
    · exact h.stored m i hm hi

theorem Sound.unlink (h : Sound sha256 z d) (n : Name) : Sound sha256 z (d.link n none) := by
  refine h.link ?_
  intro i hi
  cases hi

/-- New contents for a file that is no delivery's. -/
theorem Sound.update (h : Sound sha256 z d) {files : Nat → File} {next : Nat} (hnext : d.next ≤ next)
    (hfiles : ∀ n i, IsBatch sha256 n → some i ∈ d.stable n → (files i).bytes = (d.files i).bytes ∧
      ((d.files i).synced = true → (files i).synced = true)) :
    Sound sha256 z { d with files, next } := by
  constructor
  · exact h.current
  · intro n i hi
    exact lt_of_lt_of_le (h.bounded n i hi) hnext
  · intro n i hn hi
    obtain ⟨hsynced, old, hold, hname⟩ := h.stored n i hn hi
    obtain ⟨hbytes, hkept⟩ := hfiles n i hn hi
    refine ⟨hkept hsynced, old, ?_, hname⟩
    show Unmarshal sha256 z (files i).bytes = .ok old
    rw [hbytes]
    exact hold

theorem Sound.create (h : Sound sha256 z d) : Sound sha256 z d.create := by
  refine h.update (Nat.le_succ _) ?_
  intro n i _ hi
  have hsame : Function.update d.files d.next ⟨[], false⟩ i = d.files i :=
    d.files_create_of_lt (h.bounded n i hi)
  rw [hsame]
  exact ⟨rfl, id⟩

theorem Sound.append (h : Sound sha256 z d) {f : Nat} (hf : Private sha256 d f) (bytes : List UInt8) :
    Sound sha256 z (d.append f bytes) := by
  refine h.update (le_refl _) ?_
  intro n i hn hi
  have hne : i ≠ f := by
    rintro rfl
    exact hf n hn hi
  rw [Function.update_of_ne hne]
  exact ⟨rfl, id⟩

theorem Sound.syncFile (h : Sound sha256 z d) (f : Nat) : Sound sha256 z (d.syncFile f) := by
  refine h.update (le_refl _) ?_
  intro n i _ _
  exact ⟨d.bytes_syncFile f i, d.synced_syncFile⟩

theorem Sound.syncNames (h : Sound sha256 z d) : Sound sha256 z d.syncNames := by
  have hstable : ∀ n i, some i ∈ d.syncNames.stable n → some i ∈ d.stable n := by
    intro n i hi
    rw [List.mem_singleton.1 hi]
    exact h.current n
  constructor
  · intro n
    exact List.mem_singleton.2 rfl
  · intro n i hi
    exact h.bounded n i (hstable n i hi)
  · intro n i hn hi
    exact h.stored n i hn (hstable n i hi)

theorem Sound.powerLoss (h : Sound sha256 z d) (hloss : d.PowerLoss d') : Sound sha256 z d' := by
  have hstable : ∀ n i, some i ∈ d'.stable n → some i ∈ d.stable n := by
    intro n i hi
    rw [hloss.stable, List.mem_singleton] at hi
    rw [hi]
    exact hloss.names n
  constructor
  · intro n
    rw [hloss.stable]
    exact List.mem_singleton.2 rfl
  · intro n i hi
    rw [hloss.next]
    exact h.bounded n i (hstable n i hi)
  · intro n i hn hi
    have hstored := h.stored n i hn (hstable n i hi)
    unfold Reads
    rw [hloss.files i hstored.1]
    exact hstored

/-! ## Deliveries of a disk -/

/-- The delivery can be read. -/
def Held (sha256 : List UInt8 → Vector UInt8 32) (z : Zlib) (x : Delivery) (d : Disk) : Prop :=
  ∃ i old, d.lookup (x.name sha256) = some i ∧ Unmarshal sha256 z (d.files i).bytes = .ok old ∧
    Same sha256 old x

/-- And it can be read after a crash. -/
def Durable (sha256 : List UInt8 → Vector UInt8 32) (z : Zlib) (x : Delivery) (d : Disk) : Prop :=
  ∃ i old, d.stable (x.name sha256) = [some i] ∧ Unmarshal sha256 z (d.files i).bytes = .ok old ∧
    Same sha256 old x

theorem Durable.lookup {x : Delivery} {i : Nat} (hs : Sound sha256 z d)
    (h : d.stable (x.name sha256) = [some i]) : d.lookup (x.name sha256) = some i := by
  have hcurrent := hs.current (x.name sha256)
  rw [h] at hcurrent
  exact List.mem_singleton.1 hcurrent

theorem Durable.held {x : Delivery} (hs : Sound sha256 z d) (h : Durable sha256 z x d) :
    Held sha256 z x d := by
  obtain ⟨i, old, hstable, hold, hsame⟩ := h
  exact ⟨i, old, Durable.lookup hs hstable, hold, hsame⟩

theorem Durable.powerLoss {x : Delivery} (hs : Sound sha256 z d) (h : Durable sha256 z x d)
    (hloss : d.PowerLoss d') : Durable sha256 z x d' := by
  obtain ⟨i, old, hstable, hold, hsame⟩ := h
  have hname := hloss.names (x.name sha256)
  rw [hstable, List.mem_singleton] at hname
  have hsynced : (d.files i).synced = true :=
    (hs.stored _ i (isBatch_name x) (by rw [hstable]; exact List.mem_singleton.2 rfl)).1
  refine ⟨i, old, ?_, ?_, hsame⟩
  · rw [hloss.stable, hname]
  · rw [hloss.files i hsynced]
    exact hold

theorem Held.syncNames {x : Delivery} (h : Held sha256 z x d) : Durable sha256 z x d.syncNames := by
  obtain ⟨i, old, hlookup, hold, hsame⟩ := h
  refine ⟨i, old, ?_, hold, hsame⟩
  show [d.lookup (x.name sha256)] = [some i]
  rw [hlookup]

/-- Every delivery is kept, for now and for a crash. -/
structure Keeps (sha256 : List UInt8 → Vector UInt8 32) (z : Zlib) (d d' : Disk) : Prop where
  sound : Sound sha256 z d'
  held : ∀ x, Held sha256 z x d → Held sha256 z x d'
  durable : ∀ x, Durable sha256 z x d → Durable sha256 z x d'

theorem Keeps.refl (h : Sound sha256 z d) : Keeps sha256 z d d := ⟨h, fun _ => id, fun _ => id⟩

theorem Keeps.trans {d'' : Disk} (h : Keeps sha256 z d d') (h' : Keeps sha256 z d' d'') :
    Keeps sha256 z d d'' :=
  ⟨h'.sound, fun x hx => h'.held x (h.held x hx), fun x hx => h'.durable x (h.durable x hx)⟩

/-- Names that have a delivery are left alone, and so are their files. -/
theorem keeps_of_unchanged (hs : Sound sha256 z d) (hs' : Sound sha256 z d')
    (hbytes : ∀ n i, IsBatch sha256 n → some i ∈ d.stable n → (d'.files i).bytes = (d.files i).bytes)
    (hnames : ∀ n, IsBatch sha256 n → d.lookup n ≠ none →
      d'.lookup n = d.lookup n ∧ (d'.stable n = d.stable n ∨ d'.stable n = [d.lookup n])) :
    Keeps sha256 z d d' := by
  refine ⟨hs', ?_, ?_⟩
  · rintro x ⟨i, old, hlookup, hold, hsame⟩
    obtain ⟨hkept, -⟩ := hnames _ (isBatch_name x) (by rw [hlookup]; exact Option.some_ne_none i)
    refine ⟨i, old, hkept.trans hlookup, ?_, hsame⟩
    rw [hbytes _ i (isBatch_name x) (hlookup ▸ hs.current _)]
    exact hold
  · rintro x ⟨i, old, hstable, hold, hsame⟩
    have hlookup := Durable.lookup hs hstable
    obtain ⟨-, hkept⟩ := hnames _ (isBatch_name x) (by rw [hlookup]; exact Option.some_ne_none i)
    refine ⟨i, old, ?_, ?_, hsame⟩
    · rcases hkept with hsame | hnow
      · rw [hsame, hstable]
      · rw [hnow, hlookup]
    · rw [hbytes _ i (isBatch_name x) (hlookup ▸ hs.current _)]
      exact hold

/-- A new value for a name without a delivery. -/
theorem keeps_link (hs : Sound sha256 z d) {n : Name} {v : Option Nat} (hs' : Sound sha256 z (d.link n v))
    (hn : IsBatch sha256 n → d.lookup n = none) : Keeps sha256 z d (d.link n v) := by
  refine keeps_of_unchanged hs hs' ?_ ?_
  · intro m i _ _
    rw [Disk.files_link]
  · intro m hm hlookup
    have hne : m ≠ n := by
      rintro rfl
      exact hlookup (hn hm)
    exact ⟨Disk.lookup_link_ne d v hne, .inl (Disk.stable_link_ne d v hne)⟩

theorem keeps_create (hs : Sound sha256 z d) : Keeps sha256 z d d.create := by
  refine keeps_of_unchanged hs hs.create ?_ fun n _ _ => ⟨rfl, .inl rfl⟩
  intro n i _ hi
  rw [d.files_create_of_lt (hs.bounded n i hi)]

theorem keeps_append (hs : Sound sha256 z d) {f : Nat} (hf : Private sha256 d f) (bytes : List UInt8) :
    Keeps sha256 z d (d.append f bytes) := by
  refine keeps_of_unchanged hs (hs.append hf bytes) ?_ fun n _ _ => ⟨rfl, .inl rfl⟩
  intro n i hn hi
  have hne : i ≠ f := by
    rintro rfl
    exact hf n hn hi
  show (Function.update d.files f _ i).bytes = _
  rw [Function.update_of_ne hne]

theorem keeps_syncFile (hs : Sound sha256 z d) (f : Nat) : Keeps sha256 z d (d.syncFile f) :=
  keeps_of_unchanged hs (hs.syncFile f) (fun _ i _ _ => d.bytes_syncFile f i) fun _ _ _ => ⟨rfl, .inl rfl⟩

theorem keeps_syncNames (hs : Sound sha256 z d) : Keeps sha256 z d d.syncNames :=
  keeps_of_unchanged hs hs.syncNames (fun _ _ _ _ => rfl) fun _ _ _ => ⟨rfl, .inr rfl⟩

end MarketInfo.Spool
