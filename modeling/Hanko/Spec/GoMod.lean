import Hanko.Impl.GoMod

/-!
# The text of a go.mod file

A line is made of tokens with blanks between them, and may end in a comment
(`Line`). A file is made of directives, blocks and lines without tokens
(`Item`); its requirements are the pairs of path and version of all its
`require` directives (`requires`).
-/

namespace Hanko.GoMod

open Bytes

/-! ## Lines -/

/-- Spaces and tabs. -/
def Blanks (s : Bytes) : Prop := ∀ b ∈ s, b = 32 ∨ b = 9

instance decidableBlanks (s : Bytes) : Decidable (Blanks s) := List.decidableBAll (fun b => b = 32 ∨ b = 9) s

/-- No white space is in a token, and no comment begins there. -/
structure IsToken (t : Bytes) : Prop where
  ne_nil : t ≠ []
  space : ∀ c ∈ spaces, ¬ utf8 [c] <:+: t
  comment : ¬ lit "//" <:+: t

instance decidableIsToken (t : Bytes) : Decidable (IsToken t) :=
  decidable_of_iff (t ≠ [] ∧ (spaces.all fun c => ¬ utf8 [c] <:+: t) ∧ ¬ lit "//" <:+: t)
    ⟨fun h => ⟨h.1, by simpa using h.2.1, h.2.2⟩, fun h => ⟨h.ne_nil, by simpa using h.space, h.comment⟩⟩

/-- Tokens, each with the blanks before it. -/
abbrev Words := List (Bytes × Bytes)

def Words.text (ws : Words) : Bytes := ws.flatMap fun w => w.1 ++ w.2

def Words.tokens (ws : Words) : List Bytes := ws.map fun w => w.2

/-- There are blanks between tokens. -/
structure Words.Spaced (ws : Words) : Prop where
  blanks : ∀ w ∈ ws, Blanks w.1
  token : ∀ w ∈ ws, IsToken w.2
  gap : ∀ w ∈ ws.tail, w.1 ≠ []

instance decidableSpaced (ws : Words) : Decidable ws.Spaced :=
  decidable_of_iff ((∀ w ∈ ws, Blanks w.1) ∧ (∀ w ∈ ws, IsToken w.2) ∧ ∀ w ∈ ws.tail, w.1 ≠ [])
    ⟨fun h => ⟨h.1, h.2.1, h.2.2⟩, fun h => ⟨h.blanks, h.token, h.gap⟩⟩

structure Line where
  words : Words
  trail : Bytes
  comment : Option Bytes
  spaced : words.Spaced
  trail_blanks : Blanks trail
  comment_line : ∀ c, comment = some c → 10 ∉ c
  /-- A comment begins with the first two slashes. -/
  comment_begins : comment.isSome = true → trail = [] → ∀ t, words.tokens.getLast? = some t → t.getLast? ≠ some 47

namespace Line

def tokens (l : Line) : List Bytes := l.words.tokens

/-- What follows the last token. -/
def ending (l : Line) : Bytes :=
  match l.comment with
  | some c => l.trail ++ 47 :: 47 :: c
  | none => l.trail

def text (l : Line) : Bytes := l.words.text ++ l.ending

end Line

/-! ## Files -/

/-- The keywords of other directives. -/
def otherKeywords : List Bytes :=
  [lit "go", lit "toolchain", lit "godebug", lit "exclude", lit "replace", lit "retract", lit "tool", lit "ignore"]

def keywords : List Bytes := lit "module" :: lit "require" :: otherKeywords

/-- Paths and versions are identifiers: not a keyword, and without parentheses. -/
structure IsIdent (t : Bytes) : Prop where
  keyword : t ∉ keywords
  opening : 40 ∉ t
  closing : 41 ∉ t

/-- A line of a `require` block: a requirement, or no token. -/
inductive Entry where
  | empty (l : Line) (h : l.tokens = [])
  | require (l : Line) (dep : Dep) (h : l.tokens = [dep.name, dep.version]) (name : IsIdent dep.name)
    (version : IsIdent dep.version)

namespace Entry

def line : Entry → Line
  | .empty l _ => l
  | .require l _ _ _ _ => l

def requires : Entry → List Dep
  | .empty _ _ => []
  | .require _ dep _ _ _ => [dep]

end Entry

/-- A line of another block does not begin with a keyword or a parenthesis. -/
structure OtherLine where
  line : Line
  first : ∀ t, line.tokens.head? = some t → IsIdent t

/-- What a file is made of. -/
inductive Item where
  /-- A blank line, or a comment. -/
  | empty (l : Line) (h : l.tokens = [])
  | module (l : Line) (path : Bytes) (h : l.tokens = [lit "module", path]) (ident : IsIdent path)
  | require (l : Line) (dep : Dep) (h : l.tokens = [lit "require", dep.name, dep.version]) (name : IsIdent dep.name)
    (version : IsIdent dep.version)
  | requireBlock (opening : Line) (entries : List Entry) (closing : Line)
    (hopening : opening.tokens = [lit "require", lit "("]) (hclosing : closing.tokens = [lit ")"])
  | directive (l : Line) (keyword arg : Bytes) (args : List Bytes) (h : l.tokens = keyword :: arg :: args)
    (other : keyword ∈ otherKeywords)
  | block (opening : Line) (lines : List OtherLine) (closing : Line) (keyword : Bytes)
    (hopening : opening.tokens = [keyword, lit "("]) (other : keyword ∈ otherKeywords)
    (hclosing : closing.tokens = [lit ")"])

namespace Item

def lines : Item → List Line
  | .empty l _ => [l]
  | .module l _ _ _ => [l]
  | .require l _ _ _ _ => [l]
  | .requireBlock opening entries closing _ _ => opening :: (entries.map Entry.line ++ [closing])
  | .directive l _ _ _ _ _ => [l]
  | .block opening lines closing _ _ _ _ => opening :: (lines.map OtherLine.line ++ [closing])

/-- The requirements of an item. -/
def requires : Item → List Dep
  | .require _ dep _ _ _ => [dep]
  | .requireBlock _ entries _ _ _ => entries.flatMap Entry.requires
  | _ => []

end Item

/-- The lines of a file. -/
def lines (items : List Item) : List Line := items.flatMap Item.lines

def text (items : List Item) : Bytes := [10].intercalate ((lines items).map Line.text)

/-- The requirements of a file, in its order. -/
def requires (items : List Item) : List Dep := items.flatMap Item.requires

end Hanko.GoMod
