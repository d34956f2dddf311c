import Postbud.Lib.Spacing
import Postbud.Core.Dsn

namespace Postbud

open Lib Lib.Text Lib.Words

/-! ### What is read of a text's words -/

/-- A status up to its first dot. -/
def leadingClass (status : Text) : Text :=
  ((splitOnce '.' (trim status)).map Prod.fst).getD (trim status)

theorem Classification.fromStatus_eq (status : Text) :
    fromStatus status =
      if leadingClass status = ['2'] then accepted
      else if leadingClass status = ['4'] then transient
      else if leadingClass status = ['5'] then permanent
      else unknown := by
  unfold fromStatus leadingClass
  rw [head?_splitOn]
  generalize ((splitOnce '.' (trim status)).map Prod.fst).getD (trim status) = digit
  split <;> simp_all

theorem spaced_leadingClass {a b : Text} (h : SameWords a b) :
    Spaced (leadingClass a) (leadingClass b) := by
  have hdot := h.spaced.splitOnce (c := '.') (by decide)
  unfold leadingClass
  generalize splitOnce '.' (trim a) = p at hdot ⊢
  generalize splitOnce '.' (trim b) = q at hdot ⊢
  cases hdot with
  | none => exact h.spaced
  | some hpq => exact hpq.1

theorem Classification.fromStatus_of_words {a b : Text} (h : SameWords a b) :
    fromStatus a = fromStatus b := by
  have hclass (d : Char) (hd : isWhitespace d = false) :
      leadingClass a = [d] ↔ leadingClass b = [d] := by
    have hsolid : ∀ w ∈ [[d]], Solid w :=
      List.forall_mem_singleton.mpr (List.forall_mem_singleton.mpr hd)
    simpa using (spaced_leadingClass h).mem_iff hsolid
  rw [fromStatus_eq, fromStatus_eq]
  simp only [hclass '2' (by decide), hclass '4' (by decide), hclass '5' (by decide)]

namespace Dsn

theorem recipientIsTheProblem_of_words {a b : Text} (h : SameWords a b) :
    recipientIsTheProblem a = recipientIsTheProblem b := by
  have hdot := h.spaced.splitOnce (c := '.') (by decide)
  unfold recipientIsTheProblem
  generalize splitOnce '.' (trim a) = p at hdot ⊢
  generalize splitOnce '.' (trim b) = q at hdot ⊢
  cases hdot with
  | none => rfl
  | some hpq =>
    exact decide_eq_decide.mpr (hpq.2.mem_iff (by decide))

theorem splitWhitespace_toAsciiLowercase (t : Text) :
    splitWhitespace (toAsciiLowercase t) = (splitWhitespace t).map toAsciiLowercase :=
  splitWhitespace_map isWhitespace_asciiLower t

theorem namesAMissingMailbox_of_words {a b : Text} (h : SameWords a b) :
    namesAMissingMailbox a = namesAMissingMailbox b := by
  simp only [namesAMissingMailbox, splitWhitespace_toAsciiLowercase, show _ = _ from h]

theorem stripTypePrefix_trim (t : Text) : stripTypePrefix (trim t) = stripTypePrefix t := by
  unfold stripTypePrefix
  rw [splitOnce_trim (by decide)]
  cases splitOnce ';' t with
  | none => exact trim_trim t
  | some p => exact trim_rdropWhile p.2

theorem stripTypePrefix_of_words {a b : Text} (h : SameWords a b) :
    SameWords (stripTypePrefix a) (stripTypePrefix b) := by
  have hsemi := h.spaced.splitOnce (c := ';') (by decide)
  rw [← stripTypePrefix_trim a, ← stripTypePrefix_trim b]
  unfold stripTypePrefix
  generalize splitOnce ';' (trim a) = p at hsemi ⊢
  generalize splitOnce ';' (trim b) = q at hsemi ⊢
  cases hsemi with
  | none =>
    simp only [SameWords, splitWhitespace_trim]
    exact h
  | some hpq =>
    simp only [SameWords, splitWhitespace_trim]
    exact hpq.2.sameWords

/-- White space within a status or a diagnostic suppresses no address and saves none. -/
theorem shouldSuppress_of_words {r s : Report} (hc : r.classification = s.classification)
    (hs : Option.Rel SameWords r.status s.status)
    (hd : Option.Rel SameWords r.diagnostic s.diagnostic) :
    r.shouldSuppress = s.shouldSuppress := by
  have hstatus : r.status.any recipientIsTheProblem = s.status.any recipientIsTheProblem := by
    generalize r.status = a at hs
    generalize s.status = b at hs
    cases hs with
    | none => rfl
    | some h => exact recipientIsTheProblem_of_words h
  have hdiagnostic : r.diagnostic.any namesAMissingMailbox = s.diagnostic.any namesAMissingMailbox := by
    generalize r.diagnostic = a at hd
    generalize s.diagnostic = b at hd
    cases hd with
    | none => rfl
    | some h => exact namesAMissingMailbox_of_words h
  rw [Report.shouldSuppress, Report.shouldSuppress, hc, hstatus, hdiagnostic]

end Dsn

end Postbud
