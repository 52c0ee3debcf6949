import MarketInfo.Lib.Check

/-! # Column types

`codec.Parse` reads a column type off its SQL text. A type keeps what the value
codec looks at; the fingerprint of the text goes on the wire in front of a value.
-/

namespace MarketInfo.Codec

/-- `MaxBytes`. -/
def maxBytes : Nat := 16 * 2 ^ 20

/-- `MaxElements`. -/
def maxElements : Nat := 2 ^ 16

/-- The names of an `Enum8` and their codes: no name and no code is there twice. -/
structure EnumTable where
  entries : List (List UInt8 × Int8) := []
  names_nodup : (entries.map Prod.fst).Nodup := by simp
  codes_nodup : (entries.map Prod.snd).Nodup := by simp
deriving DecidableEq

/-- A Go unsigned integer column. -/
inductive Width
  | one | two | four | eight
deriving DecidableEq, Repr

/-- Its size in bytes. -/
def Width.size : Width → Nat
  | .one => 1
  | .two => 2
  | .four => 4
  | .eight => 8

/-- The units of a timestamp column: `Scale` 0, 3 and 6. -/
inductive Scale
  | second | milli | micro
deriving DecidableEq, Repr

mutual

/-- `Type`, by its name: what `Parse` accepts. -/
inductive Ty
  | uint (width : Width)
  | int32
  | int64
  | uint256
  | uuid
  | bool
  | string
  | fixedString (size : Nat)
  | decimal
  /-- `DateTime`, and `DateTime64` of its precision. -/
  | dateTime (scale : Scale)
  | array (child : Ty)
  | nullable (child : Ty)
  | lowCardinality (child : Ty)
  | tuple (fields : Fields)
  | enum8 (enums : EnumTable)
deriving DecidableEq

/-- The named children of a tuple. -/
inductive Fields
  | nil
  | cons (name : List UInt8) (child : Ty) (rest : Fields)
deriving DecidableEq

end

/-- `t.Name`, as the errors show it. -/
def Ty.name : Ty → String
  | .uint .one => "UInt8"
  | .uint .two => "UInt16"
  | .uint .four => "UInt32"
  | .uint .eight => "UInt64"
  | .int32 => "Int32"
  | .int64 => "Int64"
  | .uint256 => "UInt256"
  | .uuid => "UUID"
  | .bool => "Bool"
  | .string => "String"
  | .fixedString _ => "FixedString"
  | .decimal => "Decimal"
  | .dateTime .second => "DateTime"
  | .dateTime _ => "DateTime64"
  | .array _ => "Array"
  | .nullable _ => "Nullable"
  | .lowCardinality _ => "LowCardinality"
  | .tuple _ => "Tuple"
  | .enum8 _ => "Enum8"

def Fields.names : Fields → List (List UInt8)
  | .nil => []
  | .cons name _ rest => name :: rest.names

mutual

/-- `minimumSize`: the fewest bytes a value of the type takes. -/
def minimumSize : Ty → Nat
  | .nullable _ | .bool | .enum8 _ => 1
  | .uint width => width.size
  | .array _ | .string | .int32 => 4
  | .int64 | .dateTime _ => 8
  | .uint256 => 32
  | .decimal | .uuid => 16
  | .fixedString size => size
  | .lowCardinality child => minimumSize child
  | .tuple fields => minimumSizes fields

def minimumSizes : Fields → Nat
  | .nil => 0
  | .cons _ child rest => minimumSize child + minimumSizes rest

end

mutual

/-- No tuple names a field twice, and low cardinality is for strings. -/
def Ty.WellFormed : Ty → Prop
  | .array child | .nullable child => child.WellFormed
  | .lowCardinality child => child = .string
  | .tuple fields => fields.WellFormed
  | _ => True

def Fields.WellFormed : Fields → Prop
  | .nil => True
  | .cons name child rest => name ∉ rest.names ∧ child.WellFormed ∧ rest.WellFormed

end

/-! ## The text of a type -/

/-- `unicode.IsSpace`. -/
def isSpace (c : Char) : Bool :=
  (9 ≤ c.toNat && c.toNat ≤ 13) || (0x2000 ≤ c.toNat && c.toNat ≤ 0x200a) ||
    [0x20, 0x85, 0xa0, 0x1680, 0x2028, 0x2029, 0x202f, 0x205f, 0x3000].contains c.toNat

/-- `strings.TrimSpace`. -/
def trimSpace (s : List Char) : List Char :=
  ((s.dropWhile isSpace).reverse.dropWhile isSpace).reverse

/-- `len` of a Go string. -/
def byteLength (s : List Char) : Nat := (s.map Char.utf8Size).sum

/-- The bytes of an ASCII text. -/
def asciiBytes (s : List Char) : List UInt8 := s.map Char.toUInt8

/-- Where `Split` stands in its text. -/
structure Splitter where
  out : List (List Char) := []
  /-- `s[start:i]`. -/
  piece : List Char := []
  depth : Nat := 0
  quoted : Bool := false
  escaped : Bool := false

/-- One turn of the loop of `Split`. -/
def Splitter.next (s : Splitter) (c : Char) : Except String Splitter :=
  let kept := { s with piece := s.piece ++ [c] }
  if s.escaped then .ok { kept with escaped := false }
  else if s.quoted && c == '\\' then .ok { kept with escaped := true }
  else if c == '\'' then .ok { kept with quoted := !s.quoted }
  else if s.quoted then .ok kept
  else if c == '(' then .ok { kept with depth := s.depth + 1 }
  else if c == ')' then
    if s.depth = 0 then .error "unbalanced type" else .ok { kept with depth := s.depth - 1 }
  else if c == ',' && s.depth == 0 then
    .ok { s with out := s.out ++ [trimSpace s.piece], piece := [] }
  else .ok kept

/-- `Split`. -/
def split (text : List Char) : Except String (List (List Char)) := do
  let s ← text.foldlM Splitter.next {}
  Check.failIf (s.depth ≠ 0 ∨ s.quoted = true ∨ s.escaped = true) "unbalanced type"
  return s.out ++ [trimSpace s.piece]

/-- The digits of a decimal number. -/
def digits (s : List Char) : Option Nat :=
  if s = [] ∨ ¬ s.all Char.isDigit then none
  else some (s.foldl (fun n c => n * 10 + (c.toNat - '0'.toNat)) 0)

/-- `strconv.Atoi`. -/
def atoi (s : List Char) : Option Int := do
  let n : Int ← match s with
    | '-' :: rest => (fun n : Nat => -(n : Int)) <$> digits rest
    | '+' :: rest => Int.ofNat <$> digits rest
    | _ => Int.ofNat <$> digits s
  if -2 ^ 63 ≤ n ∧ n < 2 ^ 63 then some n else none

/-- `[a-zA-Z0-9_]`. -/
def isWord (c : Char) : Bool := c.isAlphanum || c == '_'

/-- `\s` of a regular expression. -/
def isBlank (c : Char) : Bool := [' ', '\t', '\n', '\r', '\x0c'].contains c

/-- A match of `enumPattern`: the name and the text of the code. -/
def matchEnum (s : List Char) : Option (List Char × List Char) :=
  match s with
  | '\'' :: rest =>
      let name := rest.takeWhile isWord
      match rest.dropWhile isWord with
      | '\'' :: rest =>
          match rest.dropWhile isBlank with
          | '=' :: rest =>
              let code := rest.dropWhile isBlank
              let unsigned := if code.head? = some '-' then code.tail else code
              if name ≠ [] ∧ unsigned ≠ [] ∧ unsigned.all Char.isDigit = true then some (name, code)
              else none
          | _ => none
      | _ => none
  | _ => none

/-- `strconv.ParseInt(s, 10, 8)`. -/
def parseInt8 (s : List Char) : Option Int8 := do
  let n ← atoi s
  if -128 ≤ n ∧ n ≤ 127 then some (Int8.ofInt n) else none

/-- One entry more, unless its code or its name is there already. -/
def EnumTable.add (e : EnumTable) (name : List UInt8) (code : Int8) : Except String EnumTable :=
  if hcode : code ∈ e.entries.map Prod.snd then .error "invalid enum code"
  else if hname : name ∈ e.entries.map Prod.fst then .error "duplicate enum name"
  else .ok {
    entries := e.entries ++ [(name, code)]
    names_nodup := by
      rw [List.map_append, List.nodup_append]
      refine ⟨e.names_nodup, List.nodup_singleton _, ?_⟩
      intro a ha b hb hab
      rw [List.mem_singleton.1 hb] at hab
      subst hab
      exact hname ha
    codes_nodup := by
      rw [List.map_append, List.nodup_append]
      refine ⟨e.codes_nodup, List.nodup_singleton _, ?_⟩
      intro a ha b hb hab
      rw [List.mem_singleton.1 hb] at hab
      subst hab
      exact hcode ha }

/-- The loop over the arguments of an `Enum8`. -/
def parseEnum (e : EnumTable) : List (List Char) → Except String EnumTable
  | [] => .ok e
  | a :: args =>
      match matchEnum a with
      | none => .error "invalid enum"
      | some (name, code) =>
          match parseInt8 code with
          | none => .error "invalid enum code"
          | some v => do
              let e ← e.add (asciiBytes name) v
              parseEnum e args

/-- `^[a-zA-Z_][a-zA-Z0-9_]*$`. -/
def isFieldName (s : List Char) : Bool :=
  match s with
  | [] => false
  | c :: rest => (c.isAlpha || c == '_') && rest.all isWord

/-- The loop over the arguments of a `Tuple`, with the names met so far. -/
def parseFields (child : List Char → Except String Ty) (seen : List (List UInt8)) :
    List (List Char) → Except String Fields
  | [] => .ok .nil
  | a :: args => do
      let text := a.takeWhile (· ≠ ' ')
      Check.failIf (text.length < 1 ∨ text.length = a.length) "tuple requires named fields"
      let name := asciiBytes text
      Check.failIf (isFieldName text = false ∨ name ∈ seen) "invalid tuple field"
      let t ← child (trimSpace (a.drop text.length))
      let rest ← parseFields child (name :: seen) args
      return .cons name t rest

/-- A type of no arguments. -/
def plain (t : Ty) (args : List (List Char)) : Except String Ty := do
  Check.failIf (args ≠ []) "unexpected type arguments"
  return t

/-- The one child of a wrapper. -/
def wrapper (child : List Char → Except String Ty) (args : List (List Char)) : Except String Ty :=
  match args with
  | [a] => child a
  | _ => .error "wrapper needs one type"

/-- The arguments between the outer parentheses of a text, if it has any. -/
def arguments (text name : List Char) : Except String (List (List Char)) :=
  if '(' ∈ text then
    if text.getLast? = some ')' then split ((text.drop (name.length + 1)).dropLast)
    else .error "invalid type"
  else .ok []

/-- `parse`; the first argument is how many levels may still follow (`depth > 16`). -/
def parse : Nat → List Char → Except String Ty
  | 0, _ => .error "type too complex"
  | levels + 1, text => do
      Check.failIf (8192 < byteLength text) "type too complex"
      let name := text.takeWhile (· ≠ '(')
      let args ← arguments text name
      match String.ofList name with
      | "UInt8" => plain (.uint .one) args
      | "UInt16" => plain (.uint .two) args
      | "UInt32" => plain (.uint .four) args
      | "UInt64" => plain (.uint .eight) args
      | "Int32" => plain .int32 args
      | "Int64" => plain .int64 args
      | "UInt256" => plain .uint256 args
      | "UUID" => plain .uuid args
      | "Bool" => plain .bool args
      | "String" => plain .string args
      | "FixedString" =>
          match args with
          | [a] =>
              match atoi a with
              | none => .error "invalid fixed length"
              | some n =>
                  if n < 1 ∨ 65535 < n then .error "invalid fixed length"
                  else .ok (.fixedString n.toNat)
          | _ => .error "fixed string needs length"
      | "Decimal" =>
          if args = ["38".toList, "18".toList] then .ok .decimal else .error "unsupported decimal"
      | "DateTime" =>
          if args = ["'UTC'".toList] then .ok (.dateTime .second)
          else .error "timestamp must use UTC"
      | "DateTime64" =>
          match args with
          | [precision, zone] =>
              if zone ≠ "'UTC'".toList then .error "timestamp must use UTC"
              else
                match atoi precision with
                | some 0 => .ok (.dateTime .second)
                | some 3 => .ok (.dateTime .milli)
                | some 6 => .ok (.dateTime .micro)
                | _ => .error "unsupported timestamp precision"
          | _ => .error "timestamp must use UTC"
      | "Array" => Ty.array <$> wrapper (parse levels) args
      | "Nullable" => Ty.nullable <$> wrapper (parse levels) args
      | "LowCardinality" => do
          let child ← wrapper (parse levels) args
          match child with
          | .string => return .lowCardinality .string
          | _ => .error "unsupported low cardinality type"
      | "Tuple" => Ty.tuple <$> parseFields (parse levels) [] args
      | "Enum8" => Ty.enum8 <$> parseEnum {} args
      | _ => .error "unsupported type"

/-- `Parse`: the type and the fingerprint of its text, its `Tag`. -/
def Parse (sha256 : List Char → Vector UInt8 32) (text : List Char) :
    Except String (Ty × Vector UInt8 16) := do
  let text := trimSpace text
  let t ← parse 17 text
  return (t, (sha256 text).take 16)

/-! ## What an accepted text says about its type -/

theorem parseFields_wellFormed {child : List Char → Except String Ty}
    (hchild : ∀ text t, child text = .ok t → t.WellFormed) (args : List (List Char)) :
    ∀ (seen : List (List UInt8)) (fields : Fields), parseFields child seen args = .ok fields →
      fields.WellFormed ∧ ∀ name ∈ fields.names, name ∉ seen := by
  induction args with
  | nil =>
      intro seen fields h
      obtain rfl := Except.ok.inj h
      exact ⟨trivial, by simp [Fields.names]⟩
  | cons a args ih =>
      intro seen fields h
      unfold parseFields at h
      simp only [Check.failIf_eq_ok, Check.andThen_eq_ok] at h
      obtain ⟨-, -, -, hname, t, ht, rest, hrest, hfields⟩ := h
      obtain rfl := Except.ok.inj hfields
      obtain ⟨hformed, hfresh⟩ := ih _ _ hrest
      refine ⟨⟨?_, hchild _ _ ht, hformed⟩, ?_⟩
      · intro hmem
        exact hfresh _ hmem List.mem_cons_self
      · intro name hmem
        rcases List.mem_cons.1 hmem with rfl | hmem
        · exact fun hseen => hname (Or.inr hseen)
        · exact fun hseen => hfresh name hmem (List.mem_cons_of_mem _ hseen)

theorem wrapper_wellFormed {child : List Char → Except String Ty}
    (hchild : ∀ text t, child text = .ok t → t.WellFormed) {args : List (List Char)} {t : Ty}
    (h : wrapper child args = .ok t) : t.WellFormed := by
  unfold wrapper at h
  split at h
  · exact hchild _ _ h
  · cases h

theorem plain_eq_ok {t t' : Ty} {args : List (List Char)} (h : plain t args = .ok t') : t' = t := by
  simp only [plain, Check.seq_eq_ok] at h
  exact (Except.ok.inj h.2).symm

theorem map_eq_ok {α β : Type} {f : α → β} {x : Except String α} {b : β} (h : f <$> x = .ok b) :
    ∃ a, x = .ok a ∧ f a = b := by
  rcases x with e | a
  · cases h
  · exact ⟨a, rfl, Except.ok.inj h⟩

theorem parse_wellFormed (levels : Nat) :
    ∀ (text : List Char) (t : Ty), parse levels text = .ok t → t.WellFormed := by
  induction levels with
  | zero =>
      intro text t h
      cases h
  | succ levels ih =>
      intro text t h
      unfold parse at h
      simp only [Check.andThen_eq_ok] at h
      obtain ⟨-, -, args, -, h⟩ := h
      split at h
      -- the types of no arguments
      iterate 10
        · obtain rfl := plain_eq_ok h
          trivial
      · -- FixedString
        split at h
        · split at h
          · cases h
          · split at h
            · cases h
            · obtain rfl := Except.ok.inj h
              trivial
        · cases h
      · -- Decimal
        split at h
        · obtain rfl := Except.ok.inj h
          trivial
        · cases h
      · -- DateTime
        split at h
        · obtain rfl := Except.ok.inj h
          trivial
        · cases h
      · -- DateTime64
        split at h
        · split at h
          · cases h
          · split at h
            iterate 3
              · obtain rfl := Except.ok.inj h
                trivial
            · cases h
        · cases h
      · -- Array
        obtain ⟨child, hchild, rfl⟩ := map_eq_ok h
        have hformed := wrapper_wellFormed ih hchild
        simpa only [Ty.WellFormed] using hformed
      · -- Nullable
        obtain ⟨child, hchild, rfl⟩ := map_eq_ok h
        have hformed := wrapper_wellFormed ih hchild
        simpa only [Ty.WellFormed] using hformed
      · -- LowCardinality
        rw [Check.andThen_eq_ok] at h
        obtain ⟨child, -, h⟩ := h
        split at h
        · obtain rfl := Except.ok.inj h
          rfl
        · cases h
      · -- Tuple
        obtain ⟨fields, hfields, rfl⟩ := map_eq_ok h
        exact (parseFields_wellFormed ih args [] fields hfields).1
      · -- Enum8
        obtain ⟨enums, -, rfl⟩ := map_eq_ok h
        trivial
      · cases h

theorem Parse_wellFormed {sha256 : List Char → Vector UInt8 32} {text : List Char} {t : Ty}
    {tag : Vector UInt8 16} (h : Parse sha256 text = .ok (t, tag)) : t.WellFormed := by
  unfold Parse at h
  rw [Check.andThen_eq_ok] at h
  obtain ⟨t', ht, h⟩ := h
  obtain rfl := (Prod.mk.inj (Except.ok.inj h)).1
  exact parse_wellFormed _ _ _ ht

end MarketInfo.Codec
