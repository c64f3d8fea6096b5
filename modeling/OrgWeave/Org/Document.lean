import OrgWeave.Corpus
import OrgWeave.Gather
import OrgWeave.Org.Element
import OrgWeave.Org.Taker

/-!
# Documents as elements

`parse` cuts the lines of a document into elements. At each place the rules are tried in
order and the first one that takes a line wins, so the order of the rules is part of
what they mean : source blocks come before other blocks, and both before single keyword
lines. The elements tile the lines, and `elementLines` gives the lines back.

With `Rule.order` every line is taken by some rule. Other lists of rules can leave a line
over, which is an error at its index.
-/

namespace OrgWeave.Org

open Text

/-- The ways to read an element. -/
inductive Rule
  | heading
  | source
  | block
  | keyword
  | blank
  | prose
  deriving DecidableEq, Repr

namespace Rule

/-- The rules in the order in which a document is read. -/
def order : List Rule := [.heading, .source, .block, .keyword, .blank, .prose]

/-- The lines that a rule takes. -/
def taker : Rule → Taker
  | .heading => .first isHeading
  | .source => .between opensSource fun _ l => closesSource l
  | .block => .between opensBlock closesBlock
  | .keyword => .first isKeyword
  | .blank => .greedy isBlank
  | .prose => .trailing isBlank fun l => !isHeading l && !isKeyword l

/-- The name and the value on a keyword line, on either side of its first colon. -/
def keywordParts (l : Line) : Text × Text :=
  let body := (afterMark? (chomp l)).getD (chomp l)
  match splitFirst? [':'] body with
  | some (name, value) => (strip name, strip value)
  | none => (strip body, [])

/-- What a rule makes of the lines that it took, `l` and those after it. -/
def make (rule : Rule) (l : Line) (ls : List Line) : Content :=
  match rule with
  | .heading =>
    match Heading.ofLine? l with
    | some h => .heading h
    | none => .prose (l :: ls)
  | .source => .source (Header.ofLine l) l ls.dropLast (ls.getLastD l)
  | .block => .block ((openedKind? l).getD []) l ls.dropLast (ls.getLastD l)
  | .keyword => .keyword (keywordParts l).1 (keywordParts l).2 l
  | .blank => .blank (l :: ls)
  | .prose => .prose (l :: ls)

/-- The first rule that takes the line `l`, with the number of lines it takes after `l`. -/
def choose? (rules : List Rule) (l : Line) (ls : List Line) : Option (Rule × Nat) :=
  rules.findSome? fun rule =>
    match rule.taker.take l ls with
    | 0 => none
    | n + 1 => some (rule, n)

end Rule

/-- Cut lines into elements, the first of which starts at `start`. -/
def parse (rules : List Rule) (start : Int) : List Line → Except Error (List Element)
  | [] => .ok []
  | l :: ls =>
    match Rule.choose? rules l ls with
    | none => .error (.unparsableLine start l)
    | some (rule, n) => do
      let rest ← parse rules (start + n + 1) (ls.drop n)
      .ok (⟨start, rule.make l (ls.take n)⟩ :: rest)
termination_by ls => ls.length
decreasing_by simp only [List.length_drop, List.length_cons]; omega

/-- The elements of each document of a corpus, in order. -/
def parseCorpus (c : Corpus) : Except Error (List Element) :=
  gather (fun d => parse Rule.order d.start (c.slice d.start d.stop)) c.documents

end OrgWeave.Org
