import Etude.Base.GetOpt
import Etude.Base.Lines
import Etude.Base.Squeeze

/-!
# Model — the program `cat`

The options, the rendering of lines and their numbers, as `Main.hs` has them.  The table of general
categories of Unicode is a parameter.
-/

namespace Etude
namespace Cat

open Base Base.GetOpt

/-! ## Characters -/

/-- `GHC.Unicode.GeneralCategory` -/
inductive GeneralCategory
  | uppercaseLetter | lowercaseLetter | titlecaseLetter | modifierLetter | otherLetter
  | nonSpacingMark | spacingCombiningMark | enclosingMark
  | decimalNumber | letterNumber | otherNumber
  | connectorPunctuation | dashPunctuation | openPunctuation | closePunctuation
  | initialQuote | finalQuote | otherPunctuation
  | mathSymbol | currencySymbol | modifierSymbol | otherSymbol
  | space | lineSeparator | paragraphSeparator
  | control | format | surrogate | privateUse | notAssigned
  deriving DecidableEq, Repr

section Characters

variable (generalCategory : Char → GeneralCategory)

def isSpace (c : Char) : Bool :=
  if c.toNat ≤ 0x377 then
    c.toNat = 32 || (9 ≤ c.toNat && c.toNat ≤ 13) || c.toNat = 0xa0
  else generalCategory c = .space

def isPrint (c : Char) : Bool :=
  match generalCategory c with
  | .lineSeparator | .paragraphSeparator | .control | .format | .surrogate | .privateUse
  | .notAssigned => false
  | _ => true

/-- The names of the characters up to the space. -/
def asciiTab : List Str :=
  ["NUL", "SOH", "STX", "ETX", "EOT", "ENQ", "ACK", "BEL", "BS", "HT", "LF", "VT", "FF", "CR",
    "SO", "SI", "DLE", "DC1", "DC2", "DC3", "DC4", "NAK", "SYN", "ETB", "CAN", "EM", "SUB", "ESC",
    "FS", "GS", "RS", "US", "SP"].map String.toList

/-- `showLitChar`, in front of a quote. -/
def showLitChar (c : Char) : Str :=
  if 0x7f < c.toNat then '\\' :: Nat.toDigits 10 c.toNat
  else if c.toNat = 0x7f then ['\\', 'D', 'E', 'L']
  else if c = '\\' then ['\\', '\\']
  else if 0x20 ≤ c.toNat then [c]
  else if c.toNat = 7 then ['\\', 'a']
  else if c.toNat = 8 then ['\\', 'b']
  else if c.toNat = 12 then ['\\', 'f']
  else if c.toNat = 10 then ['\\', 'n']
  else if c.toNat = 13 then ['\\', 'r']
  else if c.toNat = 9 then ['\\', 't']
  else if c.toNat = 11 then ['\\', 'v']
  else '\\' :: asciiTab.getD c.toNat []

/-- `show` of a character, quotes included. -/
def showChar (c : Char) : Str :=
  if c = '\'' then ['\'', '\\', '\'', '\''] else '\'' :: showLitChar c ++ ['\'']

/-- `visible` of `render Invisible` -/
def visible (c : Char) : Str :=
  if c = '\t' || isPrint generalCategory c then [c] else (showChar c).tail.dropLast

end Characters

/-- What `render Tabs` puts for a character. -/
def tabs (c : Char) : Str :=
  if c = '\t' then ['^', 'I'] else [c]

/-! ## Options -/

inductive Flag
  | blanks | dollar | squeeze | tabs | unbuffered | invisible | number | help
  deriving DecidableEq, Repr

def option (shortNames : List Char) (longNames : List String) (flag : Flag) (help : String) :
    OptDescr Flag :=
  { shortNames := shortNames
    longNames := longNames.map String.toList
    arg := .noArg flag
    help := help.toList }

def flags : List (OptDescr Flag) :=
  [ option ['b'] [] .blanks
      "Implies the -n option but doesn't count blank lines.",
    option ['e'] [] .dollar
      "Implies the -v option and also prints a dollar sign (`$') at the end of each line.",
    option ['n'] [] .number
      "Number the output lines, starting at 1.",
    option ['s'] [] .squeeze
      "Squeeze multiple adjacent empty lines, causing the output to be single spaced.",
    option ['t'] [] .tabs
      "Implies the -v option and also prints tab characters as `^I'.",
    option ['u'] [] .unbuffered
      "The output is guaranteed to be unbuffered (see setbuf(3)).",
    option ['v'] [] .invisible
      "Displays non-printing characters so they are visible.",
    option [] ["help"] .help
      "Print this help message" ]

/-- What an option stands for. -/
def set : Flag → List Flag
  | .dollar => [.dollar, .invisible]
  | .tabs => [.tabs, .invisible]
  | f => [f]

/-- The first occurrence of each element. -/
def nub {α : Type} [DecidableEq α] : List α → List α
  | [] => []
  | x :: xs => x :: (nub xs).filter (· ≠ x)

/-- How `parse` ends without flags and files. -/
inductive Exit
  | success
  | failure (errs : List OptError)
  deriving DecidableEq, Repr

def parse (argv : List Str) : Except Exit (List Flag × List Str) :=
  match getOpt flags argv with
  | (args, fs, []) =>
      let files := if fs = [] then [['-']] else fs
      if .help ∈ args then .error .success else .ok (nub (args.flatMap set), files)
  | (_, _, errs) => .error (.failure errs)

/-! ## Rendering -/

abbrev Line := List Char

/-- `"%6d  %s"` -/
def numberLine (n : ℕ) (s : Line) : Line :=
  let digits := Nat.toDigits 10 n
  List.replicate (6 - digits.length) ' ' ++ digits ++ [' ', ' '] ++ s

def numberAll (s : List Line) : List Line :=
  List.zipWith numberLine (List.range' 1 s.length) s

section Rendering

variable (generalCategory : Char → GeneralCategory)

def allSpace (s : Line) : Bool :=
  s.all (isSpace generalCategory)

/-- One step of `numberSome`. -/
def draw (p : ℕ × List Line) (s : Line) : ℕ × List Line :=
  if allSpace generalCategory s then (p.1, s :: p.2) else (p.1 + 1, numberLine p.1 s :: p.2)

def numberSome (s : List Line) : List Line :=
  (s.foldl (draw generalCategory) (1, [])).2.reverse

def render (flag : Flag) (s : List Line) : List Line :=
  match flag with
  | .squeeze =>
      (munch (fun x y => [x, y].all (allSpace generalCategory)) s).filterMap List.head?
  | .tabs => s.map fun l => l.flatMap tabs
  | .invisible => s.map fun l => l.flatMap (visible generalCategory)
  | _ => s

def number (as : List Flag) (s : List Line) : List Line :=
  if .blanks ∈ as then numberSome generalCategory s
  else if .number ∈ as then numberAll s
  else s

def newline (as : List Flag) (s : List Line) : List Line :=
  if .dollar ∈ as then s.map (· ++ ['$']) else s

/-- The lines rendered in the order of the flags. -/
def rendered (as : List Flag) (s : List Line) : List Line :=
  as.foldl (fun s flag => render generalCategory flag s) s

/-- What is printed for the contents of a file. -/
def cat (as : List Flag) (content : Str) : Str :=
  match as with
  | [] => unlines (lines content)
  | as =>
      unlines (newline as (number generalCategory as (rendered generalCategory as (lines content))))

end Rendering

/-- The categories of ASCII, with one for all of its punctuation. -/
def asciiCategory (c : Char) : GeneralCategory :=
  if c.toNat < 0x20 || c.toNat = 0x7f then .control
  else if c = ' ' then .space
  else if c.isUpper then .uppercaseLetter
  else if c.isLower then .lowercaseLetter
  else if c.isDigit then .decimalNumber
  else .otherPunctuation

end Cat
end Etude
