import Hanko.Framework.Json.String

/-!
# JSON texts

A JSON text is a tree (`Json`) whose strings, here, are the literals as they
stand in the text; `Json.mapStr quote` makes one from a tree of strings. Texts
are printed in a layout (`print`): without white space (`compact`), or
indented as `json.MarshalIndent` does (`indent`). `parse` accepts what Go's
scanner accepts: one value with white space around it, nested to a depth of
at most `maxNestingDepth`.
-/

/-- A JSON tree. Numbers are their tokens; the members of an object are in the
order in which they stand. -/
inductive Json where
  | null
  | bool (b : Bool)
  | num (tok : Bytes)
  | str (s : Bytes)
  | arr (xs : List Json)
  | obj (kvs : List (Bytes × Json))

namespace Json

open Bytes

/-- Induction over a JSON tree. -/
theorem ind {P : Json → Prop} (null : P .null) (bool : ∀ b, P (.bool b)) (num : ∀ t, P (.num t))
    (str : ∀ s, P (.str s)) (arr : ∀ xs, (∀ x ∈ xs, P x) → P (.arr xs))
    (obj : ∀ kvs, (∀ kv ∈ kvs, P kv.2) → P (.obj kvs)) : ∀ v, P v :=
  @Json.rec P (fun xs => ∀ x ∈ xs, P x) (fun kvs => ∀ kv ∈ kvs, P kv.2) (fun kv => P kv.2)
    null bool num str arr obj (by simp) (fun _ _ h hs => List.forall_mem_cons.mpr ⟨h, hs⟩)
    (by simp) (fun _ _ h hs => List.forall_mem_cons.mpr ⟨h, hs⟩) (fun _ _ h => h)

/-! ## Printing -/

/-- The white space of a printed text: what begins a line at each depth, and
what follows a colon. -/
structure Layout where
  line : Nat → Bytes
  afterColon : Bytes

/-- No white space. -/
def compact : Layout := ⟨fun _ => [], []⟩

/-- `json.MarshalIndent` with no line prefix and two spaces. -/
def indent : Layout := ⟨fun d => 10 :: List.replicate (2 * d) 32, [32]⟩

mutual

/-- A tree of literals printed at depth `d`. -/
def print (L : Layout) (d : Nat) : Json → Bytes
  | .null => lit "null"
  | .bool true => lit "true"
  | .bool false => lit "false"
  | .num t => t
  | .str s => 34 :: (s ++ [34])
  | .arr [] => lit "[]"
  | .arr (x :: xs) => 91 :: (L.line (d + 1) ++ (print L (d + 1) x ++ printItems L d xs))
  | .obj [] => [123, 125]
  | .obj ((k, v) :: kvs) =>
    123 :: (L.line (d + 1) ++ (34 :: (k ++ (34 :: 58 :: (L.afterColon ++
      (print L (d + 1) v ++ printMembers L d kvs))))))

/-- The items of an array after the first, and its end. -/
def printItems (L : Layout) (d : Nat) : List Json → Bytes
  | [] => L.line d ++ [93]
  | x :: xs => 44 :: (L.line (d + 1) ++ (print L (d + 1) x ++ printItems L d xs))

/-- The members of an object after the first, and its end. -/
def printMembers (L : Layout) (d : Nat) : List (Bytes × Json) → Bytes
  | [] => L.line d ++ [125]
  | (k, v) :: kvs =>
    44 :: (L.line (d + 1) ++ (34 :: (k ++ (34 :: 58 :: (L.afterColon ++
      (print L (d + 1) v ++ printMembers L d kvs))))))

end

mutual

/-- `f` on every string and key. -/
def mapStr (f : Bytes → Bytes) : Json → Json
  | .null => .null
  | .bool b => .bool b
  | .num t => .num t
  | .str s => .str (f s)
  | .arr xs => .arr (mapItems f xs)
  | .obj kvs => .obj (mapMembers f kvs)

def mapItems (f : Bytes → Bytes) : List Json → List Json
  | [] => []
  | x :: xs => mapStr f x :: mapItems f xs

def mapMembers (f : Bytes → Bytes) : List (Bytes × Json) → List (Bytes × Json)
  | [] => []
  | (k, v) :: kvs => (f k, mapStr f v) :: mapMembers f kvs

end

theorem mapItems_eq (f : Bytes → Bytes) (xs : List Json) : mapItems f xs = xs.map (mapStr f) := by
  induction xs with
  | nil => rfl
  | cons x xs ih => rw [mapItems, ih, List.map_cons]

theorem mapMembers_eq (f : Bytes → Bytes) (kvs : List (Bytes × Json)) :
    mapMembers f kvs = kvs.map fun kv => (f kv.1, mapStr f kv.2) := by
  induction kvs with
  | nil => rfl
  | cons kv kvs ih => rw [mapMembers, ih, List.map_cons]

/-! ## Parsing -/

/-- `maxNestingDepth` of Go's scanner. -/
def maxNestingDepth : Nat := 10000

def isSpace (b : UInt8) : Bool := b = 32 || b = 9 || b = 10 || b = 13

def isDigit (b : UInt8) : Bool := 48 ≤ b && b ≤ 57

/-- The next byte that is not white space, and what follows it. -/
def token (bs : Bytes) : Option (UInt8 × Bytes) :=
  match bs.dropWhile isSpace with
  | [] => none
  | b :: bs => some (b, bs)

/-- What follows `p` in `bs`. -/
def expect (p bs : Bytes) : Option Bytes := if p = bs.take p.length then some (bs.drop p.length) else none

/-- A run of at least one digit. -/
def scanDigits (bs : Bytes) : Option (Bytes × Bytes) :=
  if bs.takeWhile isDigit = [] then none else some (bs.takeWhile isDigit, bs.dropWhile isDigit)

/-- `bs` after a byte that satisfies `p`, when it starts with one. -/
def optional (p : UInt8 → Bool) : Bytes → Bytes × Bytes
  | [] => ([], [])
  | b :: bs => if p b then ([b], bs) else ([], b :: bs)

/-- The number `bs` starts with. -/
def scanNumber (bs : Bytes) : Option (Bytes × Bytes) := do
  let (sign, bs) := optional (· = 45) bs
  let (int, bs) ← match optional (· = 48) bs with
    | ([], bs) => scanDigits bs
    | r => some r
  let (frac, bs) ← match optional (· = 46) bs with
    | ([], bs) => some ([], bs)
    | (dot, bs) => (scanDigits bs).map fun (ds, bs) => (dot ++ ds, bs)
  let (exp, bs) ← match optional (fun b => b = 101 || b = 69) bs with
    | ([], bs) => some ([], bs)
    | (e, bs) =>
      let (sign, bs) := optional (fun b => b = 43 || b = 45) bs
      (scanDigits bs).map fun (ds, bs) => (e ++ (sign ++ ds), bs)
  return (sign ++ (int ++ (frac ++ exp)), bs)

mutual

/-- The value `bs` starts with, nested to a depth of at most `d`. The first
argument bounds the recursion. -/
def value : Nat → Nat → Bytes → Option (Json × Bytes)
  | 0, _, _ => none
  | n + 1, d, bs => do
    let (b, bs) ← token bs
    if b = 34 then
      let (l, bs) ← scanString .text bs
      return (.str l, bs)
    else if b = 91 then
      if d = 0 then none
      else
        let (c, cs) ← token bs
        if c = 93 then return (.arr [], cs)
        else
          let (xs, bs) ← items n (d - 1) bs
          return (.arr xs, bs)
    else if b = 123 then
      if d = 0 then none
      else
        let (c, cs) ← token bs
        if c = 125 then return (.obj [], cs)
        else
          let (kvs, bs) ← members n (d - 1) bs
          return (.obj kvs, bs)
    else if b = 116 then
      let bs ← expect (lit "rue") bs
      return (.bool true, bs)
    else if b = 102 then
      let bs ← expect (lit "alse") bs
      return (.bool false, bs)
    else if b = 110 then
      let bs ← expect (lit "ull") bs
      return (.null, bs)
    else
      let (t, bs) ← scanNumber (b :: bs)
      return (.num t, bs)

/-- The items of an array, at least one, to its end. -/
def items : Nat → Nat → Bytes → Option (List Json × Bytes)
  | 0, _, _ => none
  | n + 1, d, bs => do
    let (x, bs) ← value n d bs
    let (b, bs) ← token bs
    if b = 44 then
      let (xs, bs) ← items n d bs
      return (x :: xs, bs)
    else if b = 93 then return ([x], bs)
    else none

/-- The members of an object, at least one, to its end. -/
def members : Nat → Nat → Bytes → Option (List (Bytes × Json) × Bytes)
  | 0, _, _ => none
  | n + 1, d, bs => do
    let (b, bs) ← token bs
    if b = 34 then
      let (k, bs) ← scanString .text bs
      let (b, bs) ← token bs
      if b = 58 then
        let (v, bs) ← value n d bs
        let (b, bs) ← token bs
        if b = 44 then
          let (kvs, bs) ← members n d bs
          return ((k, v) :: kvs, bs)
        else if b = 125 then return ([(k, v)], bs)
        else none
      else none
    else none

end

/-- The first value of a text, and what follows it: `json.Decoder.Decode`. -/
def parseFirst (bs : Bytes) : Option (Json × Bytes) := value (bs.length + 1) maxNestingDepth bs

/-- A text that is one value: the trees `json.Unmarshal` decodes. -/
def parse (bs : Bytes) : Option Json := do
  let (v, bs) ← parseFirst bs
  if bs.all isSpace then return v else none

end Json
