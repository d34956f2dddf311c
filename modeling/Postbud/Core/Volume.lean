import Mathlib.Algebra.Order.Field.Rat
import Postbud.Lib.Text

namespace Postbud

open Lib Lib.Text

inductive Volume
  | normal (detail : Text)
  | inconclusive (detail : Text)
  | unusual (detail : Text)
  deriving DecidableEq

namespace Volume

def isUnusual : Volume → Bool
  | .unusual _ => true
  | _ => false

def MIN_DAILY : ℤ := 50

def SPIKE_MULTIPLE : ℚ := 10

def MIN_HISTORY_DAYS : ℤ := 7

def integer (n : ℤ) : Text := (toString n).toList

/-- `{:.0}`: to the nearest integer, and to the even one of two. -/
def rounded (q : ℚ) : Text :=
  let rest := q - q.floor
  integer (if rest < 1 / 2 ∨ rest = 1 / 2 ∧ q.floor % 2 = 0 then q.floor else q.floor + 1)

def judge (recent24h : ℤ) (typicalDaily : ℚ) (historyDays : ℤ) : Volume :=
  if recent24h < MIN_DAILY then
    .inconclusive (integer recent24h ++ " in the last day; under ".toList ++ integer MIN_DAILY ++
      " no multiple of a typical day is worth reporting".toList)
  else if historyDays < MIN_HISTORY_DAYS then
    .inconclusive (integer recent24h ++ " in the last day, but only ".toList ++
      integer historyDays ++
      " day(s) of history — there is no typical day to compare against yet".toList)
  else if max (typicalDaily * SPIKE_MULTIPLE) MIN_DAILY ≤ recent24h then
    .unusual (integer recent24h ++ " in the last day against a typical ".toList ++
      rounded typicalDaily ++ ". If this is not a run somebody started, treat the key as ".toList ++
      "leaked: deactivate the tenant or rotate its key, which stops it rather than ".toList ++
      "capping it".toList)
  else .normal (integer recent24h ++ " in the last day, typical ".toList ++ rounded typicalDaily)

theorem isUnusual_judge {recent24h historyDays : ℤ} {typicalDaily : ℚ} :
    (judge recent24h typicalDaily historyDays).isUnusual ↔
      50 ≤ recent24h ∧ 7 ≤ historyDays ∧ typicalDaily * 10 ≤ recent24h := by
  unfold judge
  split_ifs with hfloor hhistory hspike
  · refine iff_of_false Bool.false_ne_true fun h ↦ ?_
    exact absurd h.1 (not_le_of_gt hfloor)
  · refine iff_of_false Bool.false_ne_true fun h ↦ ?_
    exact absurd h.2.1 (not_le_of_gt hhistory)
  · exact iff_of_true rfl ⟨not_lt.mp hfloor, not_lt.mp hhistory, (le_max_left _ _).trans hspike⟩
  · refine iff_of_false Bool.false_ne_true fun h ↦ hspike (max_le h.2.2 ?_)
    exact_mod_cast h.1

end Volume

end Postbud
