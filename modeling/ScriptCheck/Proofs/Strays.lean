import Mathlib.Data.List.Perm.Subperm
import ScriptCheck.Proofs.OpenEnds

/-!
# Closers that find nothing open

How many closers of a stretch of code find nothing open depends on the number of brackets
that are open in front of it, and on nothing else. Each bracket open in front makes one
closer good, as long as there are any to make good. So what a stretch takes off the stack
in front of it, and which of its closers are in a pair, is known from one number: how many
closers are stray when the stretch stands alone.
-/

namespace ScriptCheck.Bracket

variable {kind : Bracket} {code front rest : List (Nat × Char)} {stack above outer : List Nat}
  {offset opened depth : Nat} {c : Char}

/-- The number of closers with no opener that goes with them, when `depth` brackets are open
in front. -/
def strays (kind : Bracket) (depth : Nat) : List (Nat × Char) → Nat
  | [] => 0
  | (_, c) :: rest =>
    if c = kind.opener then
      kind.strays (depth + 1) rest
    else if c = kind.closer then
      kind.strays (depth - 1) rest + if depth = 0 then 1 else 0
    else
      kind.strays depth rest

/-- The offsets of the closers of one kind. -/
def closers (kind : Bracket) (code : List (Nat × Char)) : List Nat :=
  (code.filter fun placed => placed.2 == kind.closer).map Prod.fst

/-- No offset is listed twice among chosen characters. -/
theorem nodup_offsets (ordered : code.Pairwise fun placed later => placed.1 < later.1)
    (keep : Nat × Char → Bool) : ((code.filter keep).map Prod.fst).Nodup :=
  List.pairwise_map.mpr ((ordered.filter keep).imp Nat.ne_of_lt)

/-- The closers of a kind are the offsets with its closer. -/
theorem mem_closers : offset ∈ kind.closers code ↔ (offset, kind.closer) ∈ code := by
  simp [closers]

/-- Each bracket open in front makes one more closer good, as long as there are strays. The
induction is on the code. -/
theorem strays_add (kind : Bracket) (depth further : Nat) (code : List (Nat × Char)) :
    kind.strays (depth + further) code = kind.strays depth code - further := by
  induction code generalizing depth further with
  | nil => simp [strays]
  | cons placed code ih =>
    obtain ⟨offset, c⟩ := placed
    rw [strays, strays]
    split
    · rw [Nat.add_right_comm]
      exact ih (depth + 1) further
    · split
      · cases depth with
        | zero =>
          cases further with
          | zero => rfl
          | succ further =>
            have shallower := ih 0 further
            simp only [Nat.zero_add] at shallower ⊢
            simpa using shallower
        | succ depth =>
          have shallower := ih depth further
          simpa [Nat.add_right_comm depth 1] using shallower
      · exact ih depth further

/-- Open brackets in front make the strays fewer by their number. -/
theorem strays_eq_sub (kind : Bracket) (depth : Nat) (code : List (Nat × Char)) :
    kind.strays depth code = kind.strays 0 code - depth := by
  rw [← strays_add, Nat.zero_add]

/-- Strays are counted by order alone, whatever the offsets. -/
theorem strays_map (move : Nat → Nat) (depth : Nat) (code : List (Nat × Char)) :
    kind.strays depth (code.map fun (offset, c) => (move offset, c)) = kind.strays depth code := by
  induction code generalizing depth with
  | nil => rfl
  | cons placed code ih =>
    simp only [List.map_cons, strays, ih]

/-- The stray closers of a stretch take as many brackets off the stack in front of it. -/
theorem unclosedFrom_eq_append_drop (kind : Bracket) (stack : List Nat)
    (code : List (Nat × Char)) :
    kind.unclosedFrom stack code =
      kind.unclosedFrom [] code ++ stack.drop (kind.strays 0 code) := by
  induction code generalizing stack with
  | nil => rfl
  | cons placed code ih =>
    obtain ⟨offset, c⟩ := placed
    by_cases opens : c = kind.opener
    · have one := strays_eq_sub kind 1 code
      simp only [unclosedFrom, strays, opens, ↓reduceIte, Nat.zero_add]
      rw [ih (offset :: stack), ih [offset], one,
        List.append_assoc, ← List.singleton_append, List.drop_append, List.length_singleton]
    · by_cases closes : c = kind.closer
      · subst closes
        simp only [unclosedFrom, strays, opens, ↓reduceIte, List.tail_nil]
        rw [ih stack.tail, ← List.drop_one, List.drop_drop, Nat.add_comm 1]
      · simp only [unclosedFrom, strays, opens, closes, ↓reduceIte]
        exact ih stack

/-- What stays open in a stretch alone is an opener of it. -/
theorem opener_of_mem_unclosedFrom (member : opened ∈ kind.unclosedFrom [] code) :
    (opened, kind.opener) ∈ code := by
  have listed := (perm_pairsFrom_unclosedFrom kind [] code).subset (List.mem_append_right _ member)
  rwa [List.append_nil, mem_openers] at listed

/-- What is open below a stack takes no closer away from it: a closer goes to the top first. -/
theorem mem_pairsFrom_append (outer : List Nat) {pair : Nat × Nat}
    (member : pair ∈ kind.pairsFrom stack code) : pair ∈ kind.pairsFrom (stack ++ outer) code := by
  fun_induction Bracket.pairsFrom kind stack code generalizing outer with
  | case1 => simp at member
  | case2 stack offset rest ih =>
    rw [pairsFrom_cons_opener]
    exact ih outer member
  | case3 offset rest notOpener ih =>
    cases outer with
    | nil => simpa [pairsFrom, notOpener] using member
    | cons top outer =>
      rw [List.nil_append, pairsFrom_cons_closer]
      exact .tail _ (ih outer member)
  | case4 offset rest top stack notOpener ih =>
    rw [List.cons_append, pairsFrom_cons_closer]
    rcases List.mem_cons.mp member with rfl | later
    · exact .head _
    · exact .tail _ (ih outer later)
  | case5 stack offset c rest notOpener notCloser ih =>
    rw [pairsFrom_cons_of_ne notOpener notCloser]
    exact ih outer member

/-- The closers in pairs, in order, are some of the closers. -/
theorem map_snd_pairsFrom_sublist (kind : Bracket) (stack : List Nat)
    (code : List (Nat × Char)) :
    ((kind.pairsFrom stack code).map Prod.snd).Sublist (kind.closers code) := by
  fun_induction Bracket.pairsFrom kind stack code with
  | case1 => exact .slnil
  | case2 stack offset rest ih =>
    simpa [closers, kind.opener_ne_closer] using ih
  | case3 offset rest notOpener ih =>
    simpa [closers] using ih.cons offset
  | case4 offset rest top outer notOpener ih =>
    simpa [closers] using ih.cons_cons offset
  | case5 stack offset c rest notOpener notCloser ih =>
    simpa [closers, notCloser] using ih

/-- The closer of a pair is a closer of the code. -/
theorem closer_of_mem_pairsFrom {closed : Nat}
    (paired : (opened, closed) ∈ kind.pairsFrom stack code) : (closed, kind.closer) ∈ code := by
  have listed : closed ∈ (kind.pairsFrom stack code).map Prod.snd :=
    List.mem_map.mpr ⟨_, paired, rfl⟩
  exact mem_closers.mp ((map_snd_pairsFrom_sublist kind stack code).subset listed)

/-- A stretch with nothing left open at its end has nothing left open at a place that none of
its pairs goes over, whatever is open in front of it. -/
theorem unclosedFrom_eq_nil_of_apart {ahead : List (Nat × Char)}
    (shut : kind.unclosedFrom [] (code ++ rest) = [])
    (apart : ∀ opened closed, (opened, kind.opener) ∈ code → (closed, kind.closer) ∈ rest →
      (opened, closed) ∉ kind.pairs (ahead ++ code ++ rest)) :
    kind.unclosedFrom [] code = [] := by
  apply List.eq_nil_iff_forall_not_mem.mpr
  intro opened member
  have perm := perm_pairsFrom_unclosedFrom kind (kind.unclosedFrom [] code) rest
  rw [← unclosedFrom_append, shut, List.append_nil] at perm
  obtain ⟨⟨opened, closed⟩, paired, rfl⟩ :=
    List.mem_map.mp (perm.mem_iff.mpr (List.mem_append_right _ member))
  apply apart opened closed (opener_of_mem_unclosedFrom member) (closer_of_mem_pairsFrom paired)
  rw [pairs, pairsFrom_append, unclosedFrom_append,
    unclosedFrom_eq_append_drop _ (unclosedFrom _ _ _)]
  exact List.mem_append_right _ (mem_pairsFrom_append _ paired)

/-- A closer is in a pair or stray, so that the two counts add up to all closers. -/
theorem length_closers (kind : Bracket) (stack : List Nat) (code : List (Nat × Char)) :
    (kind.closers code).length =
      (kind.pairsFrom stack code).length + kind.strays stack.length code := by
  fun_induction Bracket.pairsFrom kind stack code with
  | case1 => rfl
  | case2 stack offset rest ih =>
    simpa [closers, strays, kind.opener_ne_closer] using ih
  | case3 offset rest notOpener ih =>
    simp only [closers, strays, notOpener, ↓reduceIte, beq_self_eq_true, List.filter_cons_of_pos,
      List.map_cons, List.length_cons, List.length_nil, Nat.zero_sub] at ih ⊢
    omega
  | case4 offset rest top outer notOpener ih =>
    simp only [closers, strays, notOpener, ↓reduceIte, beq_self_eq_true, List.filter_cons_of_pos,
      List.map_cons, List.length_cons, Nat.add_sub_cancel, Nat.succ_ne_zero,
      Nat.add_zero] at ih ⊢
    omega
  | case5 stack offset c rest notOpener notCloser ih =>
    simpa [closers, strays, notOpener, notCloser] using ih

/-- Every closer is in a pair exactly when none is stray, as no closer is in two pairs. -/
theorem forall_closers_iff (distinct : (kind.closers code).Nodup) (stack : List Nat) :
    (∀ closed ∈ kind.closers code, ∃ opened, (opened, closed) ∈ kind.pairsFrom stack code) ↔
      kind.strays stack.length code = 0 := by
  have counted := length_closers kind stack code
  have sublist := map_snd_pairsFrom_sublist kind stack code
  constructor
  · intro paired
    have subset : kind.closers code ⊆ (kind.pairsFrom stack code).map Prod.snd := by
      intro closed member
      obtain ⟨opened, pair⟩ := paired closed member
      exact List.mem_map.mpr ⟨_, pair, rfl⟩
    have bound := (List.subperm_of_subset distinct subset).length_le
    rw [List.length_map] at bound
    omega
  · intro none closed member
    have same : (kind.pairsFrom stack code).map Prod.snd = kind.closers code := by
      apply sublist.eq_of_length
      rw [List.length_map]
      omega
    rw [← same] at member
    obtain ⟨⟨opened, closed⟩, pair, rfl⟩ := List.mem_map.mp member
    exact ⟨opened, pair⟩

/-- Of the brackets open in front of a stretch, the innermost ones are closed in it, as many
as the stretch alone has stray closers. -/
theorem exists_pair_iff_mem_take (distinct : (kind.openers code ++ stack).Nodup)
    (member : opened ∈ stack) :
    (∃ closed, (opened, closed) ∈ kind.pairsFrom stack code) ↔
      opened ∈ stack.take (kind.strays 0 code) := by
  have perm := perm_pairsFrom_unclosedFrom kind stack code
  have apart := (List.nodup_append.mp (perm.nodup_iff.mpr distinct)).2.2
  obtain ⟨-, distinctStack, apart'⟩ := List.nodup_append.mp distinct
  have paired_iff : (∃ closed, (opened, closed) ∈ kind.pairsFrom stack code) ↔
      opened ∈ (kind.pairsFrom stack code).map Prod.fst := by
    simp
  have split := List.take_append_drop (kind.strays 0 code) stack
  rw [← split] at distinctStack
  have distinct' := (List.nodup_append.mp distinctStack).2.2
  -- A bracket of the stack stays open exactly when the stray closers leave it there.
  have open_iff : opened ∈ kind.unclosedFrom stack code ↔
      opened ∈ stack.drop (kind.strays 0 code) := by
    rw [unclosedFrom_eq_append_drop, List.mem_append, or_iff_right]
    intro inner
    have listed := mem_openers.mpr (opener_of_mem_unclosedFrom inner)
    exact apart' opened listed opened member rfl
  rw [paired_iff]
  constructor
  · intro paired
    rw [← split, List.mem_append] at member
    rcases member with taken | left
    · exact taken
    · exact absurd rfl (apart opened paired opened (open_iff.mpr left))
  · intro taken
    have listed : opened ∈ kind.openers code ++ stack := List.mem_append.mpr (.inr member)
    rw [← perm.mem_iff, List.mem_append] at listed
    rcases listed with paired | left
    · exact paired
    · exact absurd rfl (distinct' opened taken opened (open_iff.mp left))

/-- A bracket that a stretch does not close is below all that its stray closers reach. -/
theorem strays_le_of_unpaired (distinct : (kind.openers code ++ (above ++ opened :: outer)).Nodup)
    (unpaired : ∀ closed, (opened, closed) ∉ kind.pairsFrom (above ++ opened :: outer) code) :
    kind.strays 0 code ≤ above.length := by
  apply Nat.le_of_not_lt
  intro reaches
  have taken : opened ∈ (above ++ opened :: outer).take (kind.strays 0 code) := by
    obtain ⟨further, more⟩ := Nat.exists_eq_add_of_lt reaches
    rw [more, Nat.add_assoc, List.take_length_add_append]
    simp
  obtain ⟨closed, paired⟩ := (exists_pair_iff_mem_take distinct (by simp)).mpr taken
  exact unpaired closed paired

/-- What a front leaves open is no opener of the rest. -/
theorem nodup_openers_append
    (ordered : (front ++ rest).Pairwise fun placed later => placed.1 < later.1) :
    (kind.openers rest ++ kind.unclosedFrom [] front).Nodup := by
  have perm := perm_pairsFrom_unclosedFrom kind [] front
  rw [List.append_nil] at perm
  have distinct : (kind.openers front ++ kind.openers rest).Nodup := by
    rw [openers, openers, ← List.map_append, ← List.filter_append]
    exact nodup_offsets ordered _
  obtain ⟨first, second, apart⟩ := List.nodup_append.mp distinct
  refine List.nodup_append.mpr ⟨second, ?_, ?_⟩
  · exact (List.nodup_append.mp (perm.nodup_iff.mpr first)).2.1
  · intro opened member other unclosed same
    have listed := mem_openers.mpr (opener_of_mem_unclosedFrom unclosed)
    exact apart other listed opened member same.symm

/-- No closer behind a bracket that is never closed reaches it. So what is opened behind it
stands above it, and a stretch further on has no more stray closers than that. -/
theorem unclosedFrom_of_unpaired
    (ordered : (front ++ (opened, kind.opener) :: code ++ rest).Pairwise
      fun placed later => placed.1 < later.1)
    (unpaired : ∀ closed,
      (opened, closed) ∉ kind.pairs (front ++ (opened, kind.opener) :: code ++ rest)) :
    kind.strays 0 code = 0 ∧
      kind.unclosedFrom [] (front ++ (opened, kind.opener) :: code) =
        kind.unclosedFrom [] code ++ opened :: kind.unclosedFrom [] front ∧
      kind.strays 0 rest ≤ (kind.unclosedFrom [] code).length := by
  have opens : kind.unclosedFrom [] (front ++ [(opened, kind.opener)]) =
      opened :: kind.unclosedFrom [] front := by
    rw [unclosedFrom_append, unclosedFrom, if_pos rfl, unclosedFrom]
  have regrouped : front ++ (opened, kind.opener) :: code =
      front ++ [(opened, kind.opener)] ++ code := by simp
  rw [pairs, regrouped, pairsFrom_append, pairsFrom_append, opens] at unpaired
  have within : kind.strays 0 code ≤ 0 := by
    apply @strays_le_of_unpaired kind code [] (kind.unclosedFrom [] front) opened
    · rw [List.nil_append, ← opens]
      rw [regrouped] at ordered
      exact nodup_openers_append (List.pairwise_append.mp ordered).1
    · intro closed paired
      exact unpaired closed (List.mem_append_left _ (List.mem_append_right _ paired))
  have stacked : kind.unclosedFrom [] (front ++ (opened, kind.opener) :: code) =
      kind.unclosedFrom [] code ++ opened :: kind.unclosedFrom [] front := by
    rw [regrouped, unclosedFrom_append, opens, unclosedFrom_eq_append_drop,
      Nat.le_zero.mp within, List.drop_zero]
  refine ⟨Nat.le_zero.mp within, stacked, ?_⟩
  apply @strays_le_of_unpaired kind rest _ (kind.unclosedFrom [] front) opened
  · rw [← stacked]
    exact nodup_openers_append ordered
  · intro closed paired
    rw [← regrouped, stacked] at unpaired
    exact unpaired closed (List.mem_append_right _ paired)

/-- Closers in a row close the innermost brackets one after the other. -/
theorem pairsFrom_closers (kind : Bracket) (stack : List Nat) (start count : Nat) :
    kind.pairsFrom stack ((List.range' start count).map fun place => (place, kind.closer)) =
        stack.zip (List.range' start count) ∧
      kind.unclosedFrom stack ((List.range' start count).map fun place => (place, kind.closer)) =
        stack.drop count := by
  induction count generalizing stack start with
  | zero => simp [pairsFrom, unclosedFrom]
  | succ count ih =>
    obtain ⟨pairs, opens⟩ := ih stack.tail (start + 1)
    have other : kind.closer ≠ kind.opener := kind.opener_ne_closer.symm
    rw [List.range'_succ, List.map_cons]
    constructor
    · cases stack with
      | nil => simpa [pairsFrom, other] using pairs
      | cons top outer => simpa [pairsFrom, other] using pairs
    · rw [unclosedFrom, if_neg other, if_pos rfl, opens, List.drop_tail]

end ScriptCheck.Bracket
