import ScriptCheck.Proofs.Placement

/-!
# The order in which findings are listed

The list of findings decides twice: a finding gives way to an earlier one that claims its
text, and of two that start and stop together the earlier one is applied first. Where no
two remedies lay claim to one text and no two are insertions at one place, neither decision
is left to make. All are accepted, and only one order of application goes from back to front.
-/

namespace ScriptCheck.Repair

/-- Both remedies insert at one place, where the list alone says which comes first. -/
def insertTogether (finding other : Finding) : Bool :=
  finding.offset == other.offset && finding.length == 0 && other.length == 0

/-- Two findings that each may come first start and stop together. Unless both are empty,
they conflict. -/
theorem insertTogether_of_comesFirst {finding other : Finding}
    (first : comesFirst finding other = true) (second : comesFirst other finding = true)
    (free : conflicts finding other = false) : insertTogether finding other = true := by
  have behind : other.stop ≤ finding.offset := stop_le_of_comesFirst first free
  have before : finding.stop ≤ other.offset := by
    apply stop_le_of_comesFirst second
    rw [conflicts_comm]
    exact free
  simp only [insertTogether, Bool.and_eq_true, beq_iff_eq]
  simp only [Finding.stop] at behind before
  omega

/-- Sorting leaves no trace of the order in which the findings came, if none of them conflict and no
two insert at one place. -/
theorem mergeSort_eq_of_perm {findings findings' : List Finding} (perm : findings.Perm findings')
    (free : findings.Pairwise fun finding later => conflicts finding later = false)
    (single : findings.Pairwise fun finding later => insertTogether finding later = false) :
    findings.mergeSort comesFirst = findings'.mergeSort comesFirst := by
  have alike : findings.Pairwise fun finding other => comesFirst finding other = true →
      comesFirst other finding = true → finding = other := by
    apply (free.and single).imp
    intro finding other ⟨apart, alone⟩ first second
    rw [insertTogether_of_comesFirst first second apart] at alone
    exact Bool.noConfusion alone
  have determined := List.Pairwise.forall_of_forall_of_flip (fun _ _ _ _ => rfl) alike
    (alike.imp fun same first second => (same second first).symm)
  have sorted (findings : List Finding) : (findings.mergeSort comesFirst).Pairwise
      fun finding other => comesFirst finding other = true :=
    List.pairwise_mergeSort comesFirst_trans comesFirst_total findings
  have perm' : (findings.mergeSort comesFirst).Perm (findings'.mergeSort comesFirst) :=
    ((List.mergeSort_perm _ _).trans perm).trans (List.mergeSort_perm _ _).symm
  apply List.Perm.eq_of_pairwise _ (sorted findings) (sorted findings') perm'
  intro finding other member member'
  apply determined (List.mem_mergeSort.mp member)
  exact perm.mem_iff.mpr (List.mem_mergeSort.mp member')

/-- The order of the findings makes no difference to the text or to any count, so long as
the fixable ones lay no claim to one text and insert at different places. Stale matches and
remedies that decline may be among them. -/
theorem run_of_perm (text : Text) {findings findings' : List Finding}
    (perm : findings.Perm findings')
    (free : (findings.filter Finding.isFixable).Pairwise fun finding later =>
      conflicts finding later = false)
    (single : (findings.filter Finding.isFixable).Pairwise fun finding later =>
      ¬(finding.offset = later.offset ∧ finding.length = 0 ∧ later.length = 0)) :
    run text findings = run text findings' := by
  have perm : (findings.filter Finding.isFixable).Perm (findings'.filter Finding.isFixable) :=
    perm.filter _
  have free' : (findings'.filter Finding.isFixable).Pairwise fun finding later =>
      conflicts finding later = false := by
    apply (perm.pairwise_iff _).mp free
    intro finding later
    rw [conflicts_comm]
    exact id
  have single : (findings.filter Finding.isFixable).Pairwise fun finding later =>
      insertTogether finding later = false := by
    apply single.imp
    intro finding later
    simp [insertTogether]
  simp only [run, accept_eq_self free, accept_eq_self free', mergeSort_eq_of_perm perm free single,
    perm.length_eq]

/-- An insertion in front of a rewritten word and one behind it, a match that is not there,
a remedy that declines, and a finding without a remedy over all of them. Listed the other way
round, they come to the same. -/
theorem run_of_perm_of_reverse :
    let made (offset : Nat) (matched : String) (remedy : Option Remedy) : Finding :=
      ⟨"made", .error, "", none, none, offset, matched.length, matched.toList, [], remedy⟩
    let put (new : String) : Option Remedy := some fun _ _ => some new.toList
    let findings :=
      [made 0 "" (put "("), made 0 "ab" (put "abc"), made 2 "" (put ")"),
       made 2 " " (some fun _ _ => none), made 3 "no" (put "yes"), made 0 "ab cd" none]
    run "ab cd".toList findings = run "ab cd".toList findings.reverse ∧
      run "ab cd".toList findings = ⟨"(abc) cd".toList, 3, 0, 2⟩ := by
  intro made put findings
  constructor
  · apply run_of_perm
    · exact (List.reverse_perm findings).symm
    · decide
    · decide
  · rw [run_eq_substitute]
    decide +kernel

end ScriptCheck.Repair
