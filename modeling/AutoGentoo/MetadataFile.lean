import AutoGentoo.AtomRepr
import AutoGentoo.FlagList

/-! `ebuild_metadata_init`: the read loop over a cache file and what the lines do to
the ebuild. -/

namespace AutoGentoo

def newline : Char := Char.ofNat 10

/-- What the string functions see of a buffer. -/
def cString (buffer : List Char) : List Char := buffer.takeWhile (· ≠ nul)

/-- `arch_t` -/
inductive Arch
  | amd64 | x86 | arm | arm64 | hppa | ia64 | ppc | ppc64 | sparc
  deriving DecidableEq, Repr

/-- `keyword_t` -/
inductive Keyword
  | broken | none | unstable | stable
  deriving DecidableEq, Repr

/-- The elements of `depend_setup`. -/
inductive DependVar
  | depend | rdepend | pdepend | bdepend
  deriving DecidableEq, Repr

namespace Metadata

def target (self : Metadata) : DependVar → DependTree
  | .depend => self.depend
  | .rdepend => self.rdepend
  | .pdepend => self.pdepend
  | .bdepend => self.bdepend

def setTarget (self : Metadata) (parsed : DependTree) : DependVar → Metadata
  | .depend => { self with depend := parsed }
  | .rdepend => { self with rdepend := parsed }
  | .pdepend => { self with pdepend := parsed }
  | .bdepend => { self with bdepend := parsed }

end Metadata

/-- The members of an ebuild that reading its metadata sets. -/
structure EbuildFields where
  metadata : Metadata
  subSlot : Option (List Char)
  keywords : Arch → Keyword
  metadataInit : Bool

/-- `PyEbuild_new` and `ebuild_init` leave zeros, and an empty dictionary. -/
def EbuildFields.fresh : EbuildFields where
  metadata := .blank
  subSlot := none
  keywords := fun _ => .broken
  metadataInit := false

/-- The generated parsers, which give NULL for what they refuse. -/
structure MetadataParsers where
  dependParse : List Char → DependTree
  requiredUseParse : List Char → UseTree

def dependSetup (name : List Char) : Option DependVar :=
  if name = "DEPEND".toList then some .depend
  else if name = "RDEPEND".toList then some .rdepend
  else if name = "PDEPEND".toList then some .pdepend
  else if name = "BDEPEND".toList then some .bdepend
  else none

def keywordLinks (target : List Char) : Option Arch :=
  if target = "amd64".toList then some .amd64
  else if target = "x86".toList then some .x86
  else if target = "arm".toList then some .arm
  else if target = "arm64".toList then some .arm64
  else if target = "hppa".toList then some .hppa
  else if target = "ia64".toList then some .ia64
  else if target = "ppc".toList then some .ppc
  else if target = "ppc64".toList then some .ppc64
  else if target = "sparc".toList then some .sparc
  else none

/-- The variables `opt` and `target` for a token. -/
def keywordParts (tok : List Char) : Keyword × List Char :=
  if tok.head? = some '~' then (.unstable, tok.drop 1)
  else if tok.head? = some '-' then (.broken, tok.drop 1)
  else (.stable, tok)

/-- A turn of the loop of `ebuild_keyword_init`. -/
def keywordToken (keywords : Arch → Keyword) (tok : List Char) : Arch → Keyword :=
  let parts := keywordParts tok
  if parts.2 = "**".toList ∨ parts.2 = "*".toList then fun _ => parts.1
  else
    match keywordLinks parts.2 with
    | none => keywords
    | some arch => fun a => if a = arch then parts.1 else keywords a

def isKeywordDelim (c : Char) : Bool := c == ' ' || c == newline || c == Char.ofNat 9

def ebuildKeywordInit (keywords : Arch → Keyword) (line : List Char) : Arch → Keyword :=
  (strtok line isKeywordDelim).foldl keywordToken keywords

/-- The flag of a token of IUSE. -/
def iuseFlag (token : List Char) : UseFlag :=
  if token.head? = some '+' then { name := token.drop 1, state := true }
  else if token.head? = some '-' then { name := token.drop 1, state := false }
  else { name := token, state := false }

def ebuildIuseInit (iuse : Dict (List Char) UseFlag) (line : List Char) : Dict (List Char) UseFlag :=
  ((strtok line (· == ' ')).map iuseFlag).foldl (fun iuse flag => Dict.set iuse flag.name flag) iuse

/-- How a turn of the loop ends, with the ebuild and the variable `error`. -/
inductive MetadataTurn
  | next (self : EbuildFields) (error : Nat)
  | stop (self : EbuildFields) (error : Nat)
  | crash

/-- The turn behind the reads; a failed dependency leaves only the loop over
`depend_setup`. -/
def metadataTurn (p : MetadataParsers) (name value : List Char) (self : EbuildFields) (error : Nat) :
    MetadataTurn :=
  match dependSetup name with
  | some var =>
    if self.metadata.target var ≠ .null then .next self 1
    else if p.dependParse value = .null then .next self 2
    else .next { self with metadata := self.metadata.setTarget (p.dependParse value) var } error
  | none =>
    if name = "SLOT".toList then
      match strtok value (· == '/') with
      | [] => .crash
      | tok :: rest => .next { self with
          metadata := { self.metadata with slot := some tok }
          subSlot := rest.head?.or self.subSlot } error
    else if name = "REQUIRED_USE".toList then
      let self := { self with
        metadata := { self.metadata with requiredUse := p.requiredUseParse value } }
      if p.requiredUseParse value = .null then .stop self 3 else .next self error
    else if name = "KEYWORDS".toList then
      .next { self with keywords := ebuildKeywordInit self.keywords value } error
    else if name = "IUSE".toList then
      .next { self with
        metadata := { self.metadata with iuse := ebuildIuseInit self.metadata.iuse value } } error
    else .next self error

/-- A file that is being read: what is left of it, and whether a read has met its end. -/
structure Stream where
  rest : List Char
  eof : Bool
  deriving DecidableEq, Repr

namespace Stream

/-- The buffer is `none` where nothing is read any more. -/
def getdelim (self : Stream) (delim : Char) : Option (List Char) × Stream :=
  match self.rest.dropWhile (· ≠ delim) with
  | [] => (if self.rest = [] then none else some self.rest, { rest := [], eof := true })
  | _ :: rest => (some (self.rest.takeWhile (· ≠ delim) ++ [delim]), { self with rest := rest })

/-- The two reads of a turn, with a zero over the last character of each. -/
def readPair (self : Stream) : Option (List Char × List Char) × Stream :=
  let name := self.getdelim '='
  let value := name.2.getdelim newline
  match name.1, value.1 with
  | some n, some v => (some (cString n.dropLast, cString v.dropLast), value.2)
  | _, _ => (none, value.2)

end Stream

/-- The loop, for so many turns, with the pairs it takes. -/
def metadataLoop (p : MetadataParsers) : Nat → Stream → EbuildFields → Nat →
    Option (List (List Char × List Char) × MetadataTurn)
  | 0, _, _, _ => none
  | n + 1, fp, self, error =>
    if fp.eof then some ([], .next self error)
    else
      match fp.readPair with
      | (none, _) => some ([], .next self error)
      | (some (name, value), fp) =>
        match metadataTurn p name value self error with
        | .next self error =>
          (metadataLoop p n fp self error).map fun r => ((name, value) :: r.1, r.2)
        | ending => some ([(name, value)], ending)

/-- The ebuild as the loop finds it. -/
def EbuildFields.resetKeywords (self : EbuildFields) : EbuildFields :=
  { self with keywords := fun _ => .none }

/-- The loop over a file from its beginning. A turn takes at least one character. -/
def readMetadataFile (p : MetadataParsers) (text : List Char) (self : EbuildFields) :
    Option (List (List Char × List Char) × MetadataTurn) :=
  metadataLoop p (text.length + 1) { rest := text, eof := false } self.resetKeywords 0

end AutoGentoo
