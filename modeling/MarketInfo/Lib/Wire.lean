import Mathlib

/-! # Metered readers and writers of byte strings

A reader walks a byte string from the front and pays for what it allocates out
of a budget; a writer appends to what is already out and pays from the same
budget. `Reads` says that a reader gives a value back from a body, whatever
comes after it, and `Accepts` what every body a reader takes looks like;
`Writes` and `Emits` are the same two views of a writer.
-/

namespace Wire

/-! ## Big-endian words -/

/-- The low `width` bytes of a number, the highest first. -/
def bigEndian : Nat → Nat → List UInt8
  | 0, _ => []
  | width + 1, n => bigEndian width (n / 256) ++ [UInt8.ofNat n]

/-- The number big-endian bytes stand for. -/
def ofBigEndian (bytes : List UInt8) : Nat :=
  bytes.foldl (fun n b => n * 256 + b.toNat) 0

@[simp] theorem length_bigEndian (width n : Nat) : (bigEndian width n).length = width := by
  induction width generalizing n with
  | zero => rfl
  | succ width ih => simp [bigEndian, ih]

@[simp] theorem ofBigEndian_nil : ofBigEndian [] = 0 := rfl

theorem ofBigEndian_concat (bytes : List UInt8) (b : UInt8) :
    ofBigEndian (bytes ++ [b]) = ofBigEndian bytes * 256 + b.toNat := by
  simp [ofBigEndian]

theorem ofBigEndian_lt (bytes : List UInt8) : ofBigEndian bytes < 256 ^ bytes.length := by
  induction bytes using List.reverseRecOn with
  | nil => simp
  | append_singleton bytes b ih =>
      have hb := b.toNat_lt
      rw [ofBigEndian_concat, List.length_append, List.length_singleton, pow_succ]
      omega

theorem ofBigEndian_bigEndian (width n : Nat) :
    ofBigEndian (bigEndian width n) = n % 256 ^ width := by
  induction width generalizing n with
  | zero => simp [bigEndian, Nat.mod_one]
  | succ width ih =>
      rw [bigEndian, ofBigEndian_concat, ih, pow_succ']
      -- the low byte is the remainder, and the quotient goes on
      have hbyte : (UInt8.ofNat n).toNat = n % 256 := by simp
      rw [hbyte, Nat.mod_mul]
      ring

theorem ofBigEndian_bigEndian_of_lt {width n : Nat} (h : n < 256 ^ width) :
    ofBigEndian (bigEndian width n) = n := by
  rw [ofBigEndian_bigEndian, Nat.mod_eq_of_lt h]

/-- Every byte string is the big-endian form of the number it stands for. -/
theorem bigEndian_ofBigEndian (bytes : List UInt8) :
    bigEndian bytes.length (ofBigEndian bytes) = bytes := by
  induction bytes using List.reverseRecOn with
  | nil => rfl
  | append_singleton bytes b ih =>
      have hb := b.toNat_lt
      have hquotient : (ofBigEndian bytes * 256 + b.toNat) / 256 = ofBigEndian bytes := by omega
      rw [List.length_append, List.length_singleton, bigEndian, ofBigEndian_concat, hquotient, ih]
      congr 2
      apply UInt8.toNat.inj
      simp

theorem bigEndian_ofBigEndian_of_length {width : Nat} {bytes : List UInt8}
    (h : bytes.length = width) : bigEndian width (ofBigEndian bytes) = bytes := by
  rw [← h, bigEndian_ofBigEndian]

/-! ## Two's complement -/

/-- The two's complement bytes of an integer. -/
def signedBytes (width : Nat) (n : Int) : List UInt8 :=
  bigEndian width (n % 256 ^ width).toNat

/-- The integer that two's complement bytes stand for. -/
def ofSignedBytes (a : List UInt8) : Int :=
  if 256 ^ a.length ≤ 2 * ofBigEndian a then (ofBigEndian a : Int) - 256 ^ a.length
  else ofBigEndian a

@[simp] theorem length_signedBytes (width : Nat) (n : Int) : (signedBytes width n).length = width :=
  length_bigEndian _ _

theorem ofSignedBytes_signedBytes {width : Nat} {n : Int} (hlo : -256 ^ width ≤ 2 * n)
    (hhi : 2 * n < 256 ^ width) : ofSignedBytes (signedBytes width n) = n := by
  have hpos : (0 : Int) < 256 ^ width := by positivity
  have hword : (ofBigEndian (signedBytes width n) : Int) = n % 256 ^ width := by
    unfold signedBytes
    rw [ofBigEndian_bigEndian_of_lt, Int.toNat_of_nonneg (Int.emod_nonneg _ hpos.ne')]
    have hlt := Int.emod_lt_of_pos n hpos
    zify
    rw [Int.toNat_of_nonneg (Int.emod_nonneg _ hpos.ne')]
    exact hlt
  have hlength : (signedBytes width n).length = width := length_bigEndian _ _
  unfold ofSignedBytes
  rw [hlength]
  rcases lt_or_ge n 0 with hneg | hnonneg
  · -- a negative number is written with the top bit set
    have hmod : n % 256 ^ width = n + 256 ^ width := by
      rw [← Int.add_emod_right, Int.emod_eq_of_lt] <;> omega
    rw [if_pos]
    · rw [hword, hmod]
      omega
    · zify
      rw [hword, hmod]
      omega
  · have hmod : n % 256 ^ width = n := Int.emod_eq_of_lt hnonneg (by omega)
    rw [if_neg]
    · rw [hword, hmod]
    · zify
      rw [hword, hmod]
      omega

theorem signedBytes_ofSignedBytes (a : List UInt8) : signedBytes a.length (ofSignedBytes a) = a := by
  have hlt := ofBigEndian_lt a
  have hword : (ofSignedBytes a % 256 ^ a.length).toNat = ofBigEndian a := by
    unfold ofSignedBytes
    split
    · rw [Int.sub_emod_right, Int.emod_eq_of_lt (by omega) (by exact_mod_cast hlt)]
      rfl
    · rw [Int.emod_eq_of_lt (by omega) (by exact_mod_cast hlt)]
      rfl
  unfold signedBytes
  rw [hword, bigEndian_ofBigEndian]

theorem ofSignedBytes_bounds (a : List UInt8) :
    -256 ^ a.length ≤ 2 * ofSignedBytes a ∧ 2 * ofSignedBytes a < 256 ^ a.length := by
  have hlt : (ofBigEndian a : Int) < 256 ^ a.length := by exact_mod_cast ofBigEndian_lt a
  unfold ofSignedBytes
  split
  · rename_i hhigh
    zify at hhigh
    omega
  · rename_i hlow
    zify at hlow
    omega

/-! ## Readers -/

/-- What is left to read, and the elements that may still be allocated. -/
structure Cursor where
  rest : List UInt8
  budget : Nat
deriving DecidableEq, Repr

/-- A reader: it moves the cursor and gives a value, or fails. -/
abbrev Reading (α : Type) := StateT Cursor (Except String) α

variable {α β : Type}

theorem Reading.bind_ok {m : Reading α} {f : α → Reading β} {c c' : Cursor} {b : β} :
    (m >>= f) c = .ok (b, c') ↔ ∃ a c₁, m c = .ok (a, c₁) ∧ f a c₁ = .ok (b, c') := by
  change (m c >>= fun p => f p.1 p.2) = _ ↔ _
  rcases m c with e | ⟨a, c₁⟩
  · simp [bind, Except.bind]
  · simp [bind, Except.bind]

@[simp] theorem Reading.pure_ok {a b : α} {c c' : Cursor} :
    (pure a : Reading α) c = .ok (b, c') ↔ b = a ∧ c' = c := by
  simp [pure, StateT.pure, Except.pure, eq_comm]

/-- `return err`. -/
def fail (err : String) : Reading α := fun _ => .error err

/-- `if p { return err }`. -/
def failIf (p : Prop) [Decidable p] (err : String) : Reading Unit := fun c =>
  if p then .error err else .ok ((), c)

@[simp] theorem fail_ok {err : String} {c c' : Cursor} {a : α} :
    (fail err : Reading α) c = .ok (a, c') ↔ False := by
  simp [fail]

@[simp] theorem failIf_ok {p : Prop} {_ : Decidable p} {err : String} {c c' : Cursor} {u : Unit} :
    failIf p err c = .ok (u, c') ↔ ¬ p ∧ c' = c := by
  unfold failIf
  split
  · simp_all
  · simp_all [eq_comm]

/-- The next `n` bytes, or the unexpected end of the input. -/
def take (n : Nat) : Reading (List UInt8) := fun c =>
  if n ≤ c.rest.length then .ok (c.rest.take n, { c with rest := c.rest.drop n })
  else .error "unexpected EOF"

/-- A big-endian number of `width` bytes. -/
def readNat (width : Nat) : Reading Nat := ofBigEndian <$> take width

/-- A big-endian count of elements no shorter than `width` bytes each, paid for
from the budget. -/
def count (width : Nat) : Reading Nat := do
  let n ← readNat 4
  fun c =>
    if c.budget < n then .error "array limit"
    else if c.rest.length < n * width then .error "unexpected EOF"
    else .ok (n, { c with budget := c.budget - n })

/-- `n` values in a row. -/
def many (m : Reading α) : Nat → Reading (List α)
  | 0 => pure []
  | n + 1 => do
      let a ← m
      let rest ← many m n
      return a :: rest

/-! ### What a reader gives back -/

/-- The reader takes `body` off any input that starts with it, pays `spent` and
gives `a`. -/
def Reads (m : Reading α) (body : List UInt8) (spent : Nat) (a : α) : Prop :=
  ∀ rest budget, spent ≤ budget → m ⟨body ++ rest, budget⟩ = .ok (a, ⟨rest, budget - spent⟩)

theorem reads_pure (a : α) : Reads (pure a) [] 0 a := by
  intro rest budget _
  rfl

theorem Reads.bind {m : Reading α} {f : α → Reading β} {body body' : List UInt8} {spent spent' : Nat}
    {a : α} {b : β} (hm : Reads m body spent a) (hf : Reads (f a) body' spent' b) :
    Reads (m >>= f) (body ++ body') (spent + spent') b := by
  intro rest budget hbudget
  rw [Reading.bind_ok]
  refine ⟨a, ⟨body' ++ rest, budget - spent⟩, ?_, ?_⟩
  · rw [List.append_assoc]
    exact hm _ _ (by omega)
  · have hrest := hf rest (budget - spent) (by omega)
    rwa [Nat.sub_sub] at hrest

/-- What follows takes nothing more off the input. -/
theorem Reads.followed {m : Reading α} {f : α → Reading β} {body : List UInt8} {spent : Nat} {a : α}
    {b : β} (hm : Reads m body spent a) (hf : Reads (f a) [] 0 b) :
    Reads (m >>= f) body spent b := by
  have hboth := hm.bind hf
  rwa [List.append_nil, Nat.add_zero] at hboth

theorem Reads.map {m : Reading α} {body : List UInt8} {spent : Nat} {a : α} (f : α → β)
    (hm : Reads m body spent a) : Reads (f <$> m) body spent (f a) := by
  intro rest budget hbudget
  have hread := hm rest budget hbudget
  change ((fun p => (f p.1, p.2)) <$> m ⟨body ++ rest, budget⟩) = _
  rw [hread]
  rfl

theorem reads_take {n : Nat} {body : List UInt8} (h : body.length = n) :
    Reads (take n) body 0 body := by
  intro rest budget _
  subst h
  simp [take]

theorem reads_readNat {width n : Nat} (h : n < 256 ^ width) :
    Reads (readNat width) (bigEndian width n) 0 n := by
  have hread := (reads_take (length_bigEndian width n)).map ofBigEndian
  rwa [ofBigEndian_bigEndian_of_lt h] at hread

theorem reads_failIf {p : Prop} {_ : Decidable p} {err : String} (h : ¬ p) :
    Reads (failIf p err) [] 0 () := by
  intro rest budget _
  simp [failIf, h]

/-- What comes first is free. -/
theorem Reads.after {m : Reading α} {f : α → Reading β} {body body' : List UInt8} {spent : Nat}
    {a : α} {b : β} (hm : Reads m body 0 a) (hf : Reads (f a) body' spent b) :
    Reads (m >>= f) (body ++ body') spent b := by
  have hboth := hm.bind hf
  rwa [Nat.zero_add] at hboth

/-- A check that passes costs nothing. -/
theorem Reads.guarded {p : Prop} {_ : Decidable p} {err : String} {m : Unit → Reading β}
    {body : List UInt8} {spent : Nat} {b : β} (hp : ¬ p) (hm : Reads (m ()) body spent b) :
    Reads (failIf p err >>= m) body spent b :=
  Reads.after (reads_failIf hp) hm

/-- A count in front of a body long enough for its elements. -/
theorem Reads.count {width n : Nat} {f : Nat → Reading β} {body : List UInt8} {spent : Nat} {b : β}
    (hn : n < 256 ^ 4) (hbody : n * width ≤ body.length) (hf : Reads (f n) body spent b) :
    Reads (Wire.count width >>= f) (bigEndian 4 n ++ body) (n + spent) b := by
  intro rest budget hbudget
  rw [Reading.bind_ok]
  refine ⟨n, ⟨body ++ rest, budget - n⟩, ?_, ?_⟩
  · have hread := reads_readNat hn (body ++ rest) budget (by omega)
    unfold Wire.count
    rw [Reading.bind_ok, List.append_assoc]
    refine ⟨n, _, hread, ?_⟩
    have hlong : ¬ (body ++ rest).length < n * width := by
      rw [List.length_append]
      omega
    simp only [Nat.sub_zero]
    rw [if_neg (by omega), if_neg hlong]
  · have hread := hf rest (budget - n) (by omega)
    rwa [Nat.sub_sub] at hread

/-- Bodies in a row, each with what its reading spends and gives. -/
inductive ReadsAll (m : Reading α) : List UInt8 → Nat → List α → Prop
  | nil : ReadsAll m [] 0 []
  | cons {body bodies : List UInt8} {spent spents : Nat} {a : α} {as : List α} :
      Reads m body spent a → ReadsAll m bodies spents as →
        ReadsAll m (body ++ bodies) (spent + spents) (a :: as)

theorem ReadsAll.many {m : Reading α} {body : List UInt8} {spent : Nat} {as : List α}
    (h : ReadsAll m body spent as) : Reads (many m as.length) body spent as := by
  induction h with
  | nil => exact reads_pure []
  | @cons body bodies spent spents a as hread _ ih =>
      have hrest : Reads (do let rest ← Wire.many m as.length; pure (a :: rest)) bodies spents (a :: as) := by
        have hdone := Reads.bind (f := fun rest => pure (a :: rest)) ih (reads_pure (a :: as))
        rwa [List.append_nil, Nat.add_zero] at hdone
      exact Reads.bind hread hrest

/-- Values in a row, from the body and the cost of each. -/
theorem readsAll_flatMap {m : Reading α} {body : α → List UInt8} {spent : α → Nat} (as : List α)
    (h : ∀ a ∈ as, Reads m (body a) (spent a) a) :
    ReadsAll m (as.flatMap body) (as.map spent).sum as := by
  induction as with
  | nil => exact .nil
  | cons a as ih =>
      simp only [List.flatMap_cons, List.map_cons, List.sum_cons]
      exact .cons (h a List.mem_cons_self) (ih fun b hb => h b (List.mem_cons_of_mem _ hb))

/-! ### Readers and longer inputs -/

/-- A reader that succeeds does the same on every longer input. -/
def Stable (m : Reading α) : Prop :=
  ∀ rest budget a c' more, m ⟨rest, budget⟩ = .ok (a, c') →
    m ⟨rest ++ more, budget⟩ = .ok (a, ⟨c'.rest ++ more, c'.budget⟩)

theorem stable_pure (a : α) : Stable (pure a) := by
  intro rest budget b c' more h
  obtain ⟨rfl, rfl⟩ := Reading.pure_ok.mp h
  rfl

theorem Stable.bind {m : Reading α} {f : α → Reading β} (hm : Stable m) (hf : ∀ a, Stable (f a)) :
    Stable (m >>= f) := by
  intro rest budget b c' more h
  obtain ⟨a, c₁, ha, hb⟩ := Reading.bind_ok.mp h
  exact Reading.bind_ok.mpr ⟨a, _, hm _ _ _ _ more ha, hf a _ _ _ _ more hb⟩

theorem Stable.map {m : Reading α} (f : α → β) (hm : Stable m) : Stable (f <$> m) := by
  intro rest budget b c' more h
  change ((fun p => (f p.1, p.2)) <$> m ⟨rest, budget⟩) = _ at h
  change ((fun p => (f p.1, p.2)) <$> m ⟨rest ++ more, budget⟩) = _
  rcases hc : m ⟨rest, budget⟩ with e | ⟨a, c₁⟩
  · rw [hc] at h
    cases h
  · rw [hc] at h
    cases h
    rw [hm _ _ _ _ more hc]
    rfl

theorem stable_failIf (p : Prop) [Decidable p] (err : String) : Stable (failIf p err) := by
  intro rest budget u c' more h
  obtain ⟨hp, rfl⟩ := failIf_ok.mp h
  exact failIf_ok.mpr ⟨hp, rfl⟩

theorem stable_take (n : Nat) : Stable (take n) := by
  intro rest budget a c' more h
  unfold take at h ⊢
  dsimp only at h ⊢
  split at h
  · rename_i hn
    cases h
    rw [if_pos (by rw [List.length_append]; omega), List.take_append_of_le_length hn,
      List.drop_append_of_le_length hn]
  · cases h

theorem stable_readNat (width : Nat) : Stable (readNat width) := (stable_take width).map _

/-- Two inputs of which one is the start of the other agree on the body the
reader takes. -/
theorem Stable.reads_unique {m : Reading α} (hm : Stable m) {body more input : List UInt8}
    {budget : Nat} {a b : α} {c' : Cursor} (hbody : Reads m body 0 a)
    (h : m ⟨input, budget⟩ = .ok (b, c'))
    (hcomparable : input <+: body ++ more ∨ body ++ more <+: input) :
    b = a ∧ input = body ++ c'.rest := by
  rcases hcomparable with ⟨ext, hext⟩ | ⟨ext, hext⟩
  · have hlong := hm _ _ _ _ ext h
    rw [hext, hbody _ _ (Nat.zero_le _)] at hlong
    obtain ⟨rfl, hcursor⟩ := Prod.mk.inj (Except.ok.inj hlong)
    have hrest : more = c'.rest ++ ext := congrArg Cursor.rest hcursor
    refine ⟨rfl, ?_⟩
    rw [hrest, ← List.append_assoc] at hext
    exact List.append_cancel_right hext
  · rw [← hext, List.append_assoc, hbody _ _ (Nat.zero_le _)] at h
    obtain ⟨rfl, hcursor⟩ := Prod.mk.inj (Except.ok.inj h)
    refine ⟨rfl, ?_⟩
    rw [← hcursor, ← hext, List.append_assoc]

/-! ### What a reader accepts -/

/-- Whatever the reader takes off its input, it is a body that stands for the
value in the sense of `P`. -/
def Accepts (m : Reading α) (P : List UInt8 → Nat → α → Prop) : Prop :=
  ∀ c a c', m c = .ok (a, c') →
    ∃ body spent, c.rest = body ++ c'.rest ∧ c.budget = c'.budget + spent ∧ P body spent a

theorem accepts_pure (a : α) : Accepts (pure a) fun body spent b => body = [] ∧ spent = 0 ∧ b = a := by
  intro c b c' h
  obtain ⟨rfl, rfl⟩ := Reading.pure_ok.mp h
  exact ⟨[], 0, rfl, rfl, rfl, rfl, rfl⟩

theorem Accepts.mono {m : Reading α} {P Q : List UInt8 → Nat → α → Prop} (h : Accepts m P)
    (hpq : ∀ body spent a, P body spent a → Q body spent a) : Accepts m Q := by
  intro c a c' hm
  obtain ⟨body, spent, hrest, hbudget, hp⟩ := h c a c' hm
  exact ⟨body, spent, hrest, hbudget, hpq _ _ _ hp⟩

theorem Accepts.bind {m : Reading α} {f : α → Reading β} {P : List UInt8 → Nat → α → Prop}
    {Q : α → List UInt8 → Nat → β → Prop} (hm : Accepts m P) (hf : ∀ a, Accepts (f a) (Q a)) :
    Accepts (m >>= f) fun body spent b =>
      ∃ a body₁ body₂ spent₁ spent₂, body = body₁ ++ body₂ ∧ spent = spent₁ + spent₂ ∧
        P body₁ spent₁ a ∧ Q a body₂ spent₂ b := by
  intro c b c' h
  obtain ⟨a, c₁, ha, hb⟩ := Reading.bind_ok.mp h
  obtain ⟨body₁, spent₁, hrest₁, hbudget₁, hp⟩ := hm c a c₁ ha
  obtain ⟨body₂, spent₂, hrest₂, hbudget₂, hq⟩ := hf a c₁ b c' hb
  refine ⟨body₁ ++ body₂, spent₁ + spent₂, ?_, ?_, a, body₁, body₂, spent₁, spent₂, rfl, rfl, hp, hq⟩
  · rw [hrest₁, hrest₂, List.append_assoc]
  · omega

theorem Accepts.map {m : Reading α} {P : List UInt8 → Nat → α → Prop} (f : α → β)
    (hm : Accepts m P) : Accepts (f <$> m) fun body spent b => ∃ a, b = f a ∧ P body spent a := by
  intro c b c' h
  change ((fun p => (f p.1, p.2)) <$> m c) = _ at h
  rcases hc : m c with e | ⟨a, c₁⟩
  · rw [hc] at h
    cases h
  · rw [hc] at h
    cases h
    obtain ⟨body, spent, hrest, hbudget, hp⟩ := hm c a c₁ hc
    exact ⟨body, spent, hrest, hbudget, a, rfl, hp⟩

theorem accepts_take (n : Nat) :
    Accepts (take n) fun body spent a => body = a ∧ spent = 0 ∧ a.length = n := by
  intro c a c' h
  unfold take at h
  split at h
  · rename_i hn
    cases h
    exact ⟨c.rest.take n, 0, (List.take_append_drop n c.rest).symm, rfl, rfl, rfl,
      List.length_take_of_le hn⟩
  · cases h

theorem accepts_readNat (width : Nat) :
    Accepts (readNat width) fun body spent n =>
      body = bigEndian width n ∧ spent = 0 ∧ n < 256 ^ width := by
  refine ((accepts_take width).map ofBigEndian).mono ?_
  rintro body spent n ⟨bytes, rfl, rfl, rfl, hlength⟩
  refine ⟨(bigEndian_ofBigEndian_of_length hlength).symm, rfl, ?_⟩
  rw [← hlength]
  exact ofBigEndian_lt _

theorem accepts_failIf (p : Prop) [Decidable p] (err : String) :
    Accepts (failIf p err) fun body spent _ => body = [] ∧ spent = 0 ∧ ¬ p := by
  intro c u c' h
  obtain ⟨hp, rfl⟩ := failIf_ok.mp h
  exact ⟨[], 0, rfl, rfl, rfl, rfl, hp⟩

theorem accepts_count (width : Nat) :
    Accepts (count width) fun body spent n =>
      body = bigEndian 4 n ∧ spent = n ∧ n < 256 ^ 4 := by
  intro c n c' h
  obtain ⟨k, c₁, hk, hn⟩ := Reading.bind_ok.mp h
  obtain ⟨body, spent, hrest, hbudget, rfl, rfl, hlt⟩ := accepts_readNat 4 c k c₁ hk
  split at hn
  · cases hn
  · split at hn
    · cases hn
    · cases hn
      refine ⟨_, n, hrest, ?_, rfl, rfl, hlt⟩
      show c.budget = c₁.budget - n + n
      omega

/-- Values in a row were read from bodies in a row. -/
inductive All (P : List UInt8 → Nat → α → Prop) : List UInt8 → Nat → List α → Prop
  | nil : All P [] 0 []
  | cons {body bodies : List UInt8} {spent spents : Nat} {a : α} {as : List α} :
      P body spent a → All P bodies spents as → All P (body ++ bodies) (spent + spents) (a :: as)

/-- Bodies and costs that the values determine. -/
theorem All.flatMap {body : α → List UInt8} {spent : α → Nat} {Q : α → Prop} {bodies : List UInt8}
    {spents : Nat} {as : List α} (h : All (fun b k a => b = body a ∧ k = spent a ∧ Q a) bodies spents as) :
    bodies = as.flatMap body ∧ spents = (as.map spent).sum ∧ ∀ a ∈ as, Q a := by
  induction h with
  | nil => exact ⟨rfl, rfl, fun a ha => absurd ha List.not_mem_nil⟩
  | cons ha _ ih =>
      obtain ⟨rfl, rfl, hq⟩ := ha
      obtain ⟨rfl, rfl, hqs⟩ := ih
      refine ⟨rfl, rfl, ?_⟩
      intro b hb
      rcases List.mem_cons.1 hb with rfl | hb
      · exact hq
      · exact hqs b hb

theorem Accepts.many {m : Reading α} {P : List UInt8 → Nat → α → Prop} (hm : Accepts m P) (n : Nat) :
    Accepts (many m n) fun body spent as => as.length = n ∧ All P body spent as := by
  induction n with
  | zero =>
      refine (accepts_pure []).mono ?_
      rintro body spent as ⟨rfl, rfl, rfl⟩
      exact ⟨rfl, .nil⟩
  | succ n ih =>
      refine (hm.bind fun a => ih.bind fun as => accepts_pure (a :: as)).mono ?_
      rintro body spent as ⟨a, body₁, body₂, spent₁, spent₂, rfl, rfl, hp,
        as', body₃, body₄, spent₃, spent₄, rfl, rfl, ⟨hlength, hall⟩, rfl, rfl, rfl⟩
      rw [List.append_nil, Nat.add_zero]
      exact ⟨by rw [List.length_cons, hlength], .cons hp hall⟩

/-! ## Writers -/

/-- What is already out, and the elements that may still be written. -/
structure Sink where
  out : List UInt8 := []
  budget : Nat
deriving DecidableEq, Repr

/-- `b.Write(body)`. -/
def Sink.write (s : Sink) (body : List UInt8) : Sink := { s with out := s.out ++ body }

/-- A writer: it appends to the sink, or fails. -/
abbrev Writing := Sink → Except String Sink

/-- Whatever the writer appends, it is a body with `P`. -/
def Emits (w : Writing) (P : List UInt8 → Nat → Prop) : Prop :=
  ∀ s s', w s = .ok s' →
    ∃ body spent, s'.out = s.out ++ body ∧ s.budget = s'.budget + spent ∧ P body spent

/-- The writer appends `body` and pays `spent`, as long as that fits. -/
def Writes (limit : Nat) (w : Writing) (body : List UInt8) (spent : Nat) : Prop :=
  ∀ s, s.out.length + body.length ≤ limit → spent ≤ s.budget →
    w s = .ok ⟨s.out ++ body, s.budget - spent⟩

theorem Emits.mono {w : Writing} {P Q : List UInt8 → Nat → Prop} (h : Emits w P)
    (hpq : ∀ body spent, P body spent → Q body spent) : Emits w Q := by
  intro s s' hs
  obtain ⟨body, spent, hout, hbudget, hp⟩ := h s s' hs
  exact ⟨body, spent, hout, hbudget, hpq _ _ hp⟩

/-- One writer after another. -/
theorem Emits.bind {w w' : Writing} {P Q : List UInt8 → Nat → Prop} (hw : Emits w P)
    (hw' : Emits w' Q) :
    Emits (fun s => w s >>= w') fun body spent =>
      ∃ body₁ body₂ spent₁ spent₂, body = body₁ ++ body₂ ∧ spent = spent₁ + spent₂ ∧
        P body₁ spent₁ ∧ Q body₂ spent₂ := by
  intro s s' h
  change w s >>= w' = _ at h
  rcases hs : w s with e | s₁
  · rw [hs] at h
    cases h
  · rw [hs] at h
    obtain ⟨body₁, spent₁, hout₁, hbudget₁, hp⟩ := hw s s₁ hs
    obtain ⟨body₂, spent₂, hout₂, hbudget₂, hq⟩ := hw' s₁ s' h
    refine ⟨body₁ ++ body₂, spent₁ + spent₂, ?_, ?_, body₁, body₂, spent₁, spent₂, rfl, rfl, hp, hq⟩
    · rw [hout₂, hout₁, List.append_assoc]
    · omega

theorem Writes.bind {limit : Nat} {w w' : Writing} {body body' : List UInt8} {spent spent' : Nat}
    (hw : Writes limit w body spent) (hw' : Writes limit w' body' spent') :
    Writes limit (fun s => w s >>= w') (body ++ body') (spent + spent') := by
  intro s hfits hbudget
  rw [List.length_append] at hfits
  show w s >>= w' = _
  rw [hw s (by omega) (by omega)]
  have hrest := hw' ⟨s.out ++ body, s.budget - spent⟩ (by
    rw [List.length_append]
    omega) (by
    show spent' ≤ s.budget - spent
    omega)
  rw [List.append_assoc, Nat.sub_sub] at hrest
  exact hrest

end Wire
