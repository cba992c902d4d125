import TelemetryBands.Ladder.Rule

/-!
# Ladders of rules

A ladder is a list of rules in ascending order of their states whose bands lie above each other and
never share a value, so a value belongs to at most one state.
-/

namespace TelemetryBands

/-- The state of a topic: none yet, or that of a rule. -/
inductive Band where
  | unclassified
  | state (s : UInt32)
  deriving DecidableEq, Repr, Inhabited

/-- The state of a band, if it has one. -/
def Band.state? : Band → Option UInt32
  | .unclassified => none
  | .state s => some s

namespace Ladder

/-- Why a list of rules is no ladder. -/
inductive Flaw where
  | noRules
  | rule (state : UInt32) (flaw : Rule.Flaw)
  | order (state previous : UInt32)
  | innerUnbounded (previous state : UInt32)
  | descending (state : UInt32) (lower : Float) (previous : UInt32) (upper : Float)
  | sharedBound (previous state : UInt32) (bound : Float)
  deriving DecidableEq, Repr

/-- The text of a flaw. -/
def Flaw.text : Flaw → String
  | .noRules => "a topic needs at least one rule"
  | .rule state flaw => flaw.text state
  | .order state previous =>
    s!"rules must be ordered by ascending state ({state} follows {previous})"
  | .innerUnbounded previous state =>
    s!"states {previous} and {state} overlap: an unbounded side may only face outward"
  | .descending state lower previous upper =>
    s!"bounds are not monotonic: state {state} starts at " ++ Decimal.message lower
      ++ s!" below state {previous} ending at " ++ Decimal.message upper
  | .sharedBound previous state bound =>
    s!"states {previous} and {state} both include the shared bound " ++ Decimal.message bound

/-- The failure that a flaw is answered with. -/
def Flaw.failure (flaw : Flaw) : Failure :=
  ⟨.validation, flaw.text⟩

/-- What is wrong with two rules that follow each other, if anything: the state must grow, both must
be bounded on the side where they meet, the bounds must not cross, and a bound that they share must
not belong to both bands. -/
def stepFlaw? (previous next : Rule) : Option Flaw :=
  if next.state ≤ previous.state then some (.order next.state previous.state)
  else
    match previous.upper, next.lower with
    | some upper, some lower =>
      if lower < upper then some (.descending next.state lower previous.state upper)
      else if lower == upper && previous.exclusion.includesUpper
          && next.exclusion.includesLower then
        some (.sharedBound previous.state next.state upper)
      else none
    | _, _ => some (.innerUnbounded previous.state next.state)

/-- The first flaw between rules that follow each other. -/
def stepsFlaw? : List Rule → Option Flaw
  | previous :: next :: rules => stepFlaw? previous next <|> stepsFlaw? (next :: rules)
  | _ => none

/-- The first flaw of a list of rules: those of single rules come before those between rules. -/
def flaw? (rules : List Rule) : Option Flaw :=
  if rules.isEmpty then some .noRules
  else rules.findSome? (fun r => r.flaw?.map (.rule r.state)) <|> stepsFlaw? rules

end Ladder

/-- A list of rules without flaw. -/
structure Ladder where
  rules : List Rule
  sound : Ladder.flaw? rules = none

namespace Ladder

instance : DecidableEq Ladder := fun a b =>
  if h : a.rules = b.rules then isTrue (by cases a; cases b; simp_all)
  else isFalse fun e => h (congrArg Ladder.rules e)

/-- The ladder of a list of rules, or its first flaw. -/
def ofRules (rules : List Rule) : Except Flaw Ladder :=
  match h : flaw? rules with
  | none => .ok ⟨rules, h⟩
  | some flaw => .error flaw

/-- The rule whose band holds a value: the first, if there were several. -/
def matchingRule? (l : Ladder) (x : Float) : Option Rule :=
  l.rules.find? (·.contains x)

/-- The band that a value belongs to. -/
def classify (l : Ladder) (x : Float) : Band :=
  match l.matchingRule? x with
  | some rule => .state rule.state
  | none => .unclassified

/-- The states of all rules whose bands hold a value. -/
def allMatches (l : Ladder) (x : Float) : List UInt32 :=
  (l.rules.filter (·.contains x)).map Rule.state

/-- The place of the rule for a state. -/
def indexOfState? (l : Ladder) (s : UInt32) : Option Nat :=
  l.rules.findIdx? (·.state == s)

/-- How often the rule for a state publishes it again. -/
def repeatPolicy? (l : Ladder) (s : UInt32) : Option RepeatPolicy :=
  (l.rules.find? (·.state == s)).bind Rule.repeats

end Ladder

end TelemetryBands
