import Mathlib.Data.List.Nodup
import Mathlib.Order.Defs.Unbundled
import Reckoner.Proofs.Builder.Division
import Reckoner.Proofs.Builder.Proper

/-!
The order in which operators are visited. Operators of one precedence group alike once they are settled,
so that the ranks are in an order: tighter operators first, and those of one precedence from the side on
which they group.
-/
namespace Reckoner

/-- How a settled operator takes its operands, with how tightly it can then bind. -/
inductive Occurrence.Stands (occurrence : Occurrence) : Fixity → Prop where
  | binary : occurrence.form.binary = true → occurrence.form.trailing = false →
      occurrence.precedence ≤ 13 → Stands occurrence .binary
  | leading : occurrence.form.binary = false → occurrence.form.leading = true →
      occurrence.form.trailing = false → 15 ≤ occurrence.precedence → occurrence.precedence ≤ 16 →
      Stands occurrence .leading
  | trailing : occurrence.form.binary = false → occurrence.form.leading = false →
      occurrence.form.trailing = true → occurrence.precedence = 15 → Stands occurrence .trailing

namespace Occurrence.Settled

variable {occurrence : Occurrence}

theorem stands (h : occurrence.Settled) (notMark : occurrence.operator.isPunctuation = false) :
    ∃ fixity, occurrence.Stands fixity := by
  cases h with
  | plain op side =>
    cases op <;> first
      | exact ⟨_, .binary rfl rfl (by decide)⟩
      | exact ⟨_, .leading rfl rfl rfl (Nat.le_refl _) (Nat.le_succ _)⟩
      | exact ⟨_, .leading rfl rfl rfl (Nat.le_succ _) (Nat.le_refl _)⟩
      | (cases notMark; done)
      | cases side
  | before op side => exact ⟨_, .leading rfl rfl rfl (Nat.le_refl _) (Nat.le_succ _)⟩
  | after op side => exact ⟨_, .trailing rfl rfl rfl rfl⟩
  | sign op side =>
    cases op <;> first
      | exact ⟨_, .leading rfl rfl rfl (Nat.le_refl _) (Nat.le_succ _)⟩
      | cases side

/-- Operators of one precedence group from the same side. -/
theorem associativity_eq (h : occurrence.Settled) :
    occurrence.associativity =
      if occurrence.precedence = 3 ∨ 15 ≤ occurrence.precedence then .right else .left := by
  cases h with
  | plain op side => cases op <;> rfl
  | before op side | after op side | sign op side => rfl

/-- Unary operators take what binds as tightly as they do themselves. -/
theorem rightLevel_eq (h : occurrence.Settled) (unary : 15 ≤ occurrence.precedence) :
    occurrence.rightLevel = occurrence.precedence := by
  rw [rightLevel, h.associativity_eq, if_pos (.inr unary)]

end Occurrence.Settled

namespace Item

variable {registry : Registry} {items : List Item} {item : Item}

theorem exists_stands (settled : ∀ lexeme, .lexeme lexeme ∈ items → lexeme.Settled registry)
    (mem : item ∈ items) (isOperator : item.isOperator = true) {occurrence : Occurrence}
    (named : item.occurrence? = some occurrence) : ∃ fixity, occurrence.Stands fixity := by
  obtain ⟨other, same, notMark⟩ := exists_occurrence_of_isOperator isOperator
  rw [named] at same
  cases same
  exact (settled_of_occurrence? settled mem named).stands notMark

theorem stands_of_trails (settled : ∀ lexeme, .lexeme lexeme ∈ items → lexeme.Settled registry)
    (mem : item ∈ items) (h : item.trails = true) :
    item.isOperator = true ∧ ∃ occurrence, item.occurrence? = some occurrence ∧
      occurrence.Stands .trailing := by
  simp only [trails, Bool.and_eq_true, Option.any_eq_true] at h
  obtain ⟨isOperator, occurrence, named, behind⟩ := h
  obtain ⟨fixity, stands⟩ := exists_stands settled mem isOperator named
  cases stands with
  | binary _ notTrailing | leading _ _ notTrailing => simp [behind] at notTrailing
  | trailing notBinary notLeading trails precedence =>
    exact ⟨isOperator, occurrence, named, .trailing notBinary notLeading trails precedence⟩

end Item

namespace Builder

open Item

/-- The ranks as numbers that grow in the order of the visits. -/
private def Rank.key (rank : Rank) : Int × Int :=
  (-rank.precedence, match rank.associativity with
    | .left => rank.position
    | .right => -rank.position)

private def Rank.keyLe (a b : Rank) : Bool :=
  a.key.1 < b.key.1 || a.key.1 == b.key.1 && a.key.2 ≤ b.key.2

private theorem notAfter_eq {a b : Rank}
    (same : a.precedence = b.precedence → a.associativity = b.associativity) :
    a.notAfter b = a.keyLe b := by
  unfold Rank.notAfter Rank.keyLe Rank.key
  split
  · next equal =>
    simp only [equal, ← same equal]
    cases a.associativity <;> simp
  · next differ =>
    have : (-(a.precedence : Int) == -(b.precedence : Int)) = false := by
      simp only [beq_eq_false_iff_ne]
      omega
    simp [this]

private theorem keyLe_trans {a b c : Rank} (ab : a.keyLe b = true) (bc : b.keyLe c = true) :
    a.keyLe c = true := by
  simp only [Rank.keyLe, Bool.or_eq_true, Bool.and_eq_true, decide_eq_true_eq, beq_iff_eq] at *
  omega

private theorem keyLe_total (a b : Rank) : (a.keyLe b || b.keyLe a) = true := by
  simp only [Rank.keyLe, Bool.or_eq_true, Bool.and_eq_true, decide_eq_true_eq, beq_iff_eq]
  omega

variable {registry : Registry} {items : List Item}

theorem mem_ranksOf {rank : Rank} :
    rank ∈ ranksOf items ↔ ∃ item ∈ items, Rank.of? item = some rank := by
  simp [ranksOf]

theorem rank_of? {item : Item} {rank : Rank} (h : Rank.of? item = some rank) :
    item.isOperator = true ∧ ∃ occurrence, item.occurrence? = some occurrence ∧
      rank = ⟨occurrence.precedence, occurrence.associativity, item.position⟩ := by
  unfold Rank.of? at h
  split at h
  · next isOperator =>
    obtain ⟨occurrence, found, rfl⟩ := Option.map_eq_some_iff.mp h
    exact ⟨isOperator, occurrence, found, rfl⟩
  · cases h

/-- Ranks of one precedence group from the same side. -/
theorem Rank.associativity_eq (settled : ∀ lexeme, .lexeme lexeme ∈ items → lexeme.Settled registry) {a b : Rank}
    (isA : a ∈ items.filterMap Rank.of?) (isB : b ∈ items.filterMap Rank.of?)
    (equal : a.precedence = b.precedence) : a.associativity = b.associativity := by
  have grouped : ∀ rank ∈ items.filterMap Rank.of?, rank.associativity =
      if rank.precedence = 3 ∨ 15 ≤ rank.precedence then .right else .left := by
    intro rank mem
    obtain ⟨item, inItems, found⟩ := List.mem_filterMap.mp mem
    obtain ⟨-, occurrence, named, rfl⟩ := rank_of? found
    exact (settled_of_occurrence? settled inItems named).associativity_eq
  rw [grouped a isA, grouped b isB, equal]

/-- Ranks of settled operators are visited in their order. -/
theorem pairwise_ranksOf (settled : ∀ lexeme, .lexeme lexeme ∈ items → lexeme.Settled registry) :
    (ranksOf items).Pairwise fun a b => a.notAfter b = true := by
  have same : ∀ a ∈ ranksOf items, ∀ b ∈ ranksOf items, a.notAfter b = a.keyLe b := fun a isA b isB =>
    notAfter_eq (Rank.associativity_eq settled (List.mem_mergeSort.mp isA) (List.mem_mergeSort.mp isB))
  have sorted : ranksOf items = (items.filterMap Rank.of?).mergeSort Rank.keyLe := by
    have := @List.map_mergeSort _ _ Rank.notAfter Rank.keyLe id (items.filterMap Rank.of?)
      fun a isA b isB => same a (List.mem_mergeSort.mpr isA) b (List.mem_mergeSort.mpr isB)
    simpa [ranksOf] using this
  have ordered : (ranksOf items).Pairwise fun a b => a.keyLe b = true := by
    rw [sorted]
    exact @List.pairwise_mergeSort _ Rank.keyLe (fun _ _ _ => keyLe_trans) keyLe_total _
  exact ordered.imp_of_mem fun isA isB le => (same _ isA _ isB).trans le

/-- How two ranks are compared when operators are sorted. -/
def Rank.compare (a b : Rank) : Ordering :=
  (Ord.compare b.precedence a.precedence).then
    (match a.associativity with
    | .left => Ord.compare a.position b.position
    | .right => Ord.compare b.position a.position)

private theorem compare_eq_lt {a b : Rank}
    (same : a.precedence = b.precedence → a.associativity = b.associativity) :
    a.compare b = .lt ↔ a.key.1 < b.key.1 ∨ a.key.1 = b.key.1 ∧ a.key.2 < b.key.2 := by
  unfold Rank.compare Rank.key
  by_cases equal : a.precedence = b.precedence
  · rw [← same equal]
    cases a.associativity <;> simp [equal, Nat.compare_eq_lt]
  · have differ : (-(a.precedence : Int)) ≠ -b.precedence := by omega
    simp [Ordering.then_eq_lt, Nat.compare_eq_lt, Ne.symm equal, differ]

/-- A rank is sorted before another one unless it compares as greater. -/
theorem Rank.notAfter_eq_isLE (a b : Rank) : a.notAfter b = (a.compare b).isLE := by
  unfold notAfter compare
  split
  · next equal =>
    rw [equal, Nat.compare_eq_eq.mpr rfl]
    cases a.associativity <;> exact Bool.eq_iff_iff.mpr (by simp [Nat.isLE_compare])
  · next differ =>
    rcases Nat.lt_or_gt_of_ne differ with lower | higher
    · simp [Nat.compare_eq_gt.mpr lower, Nat.le_of_lt lower]
    · simp [Nat.compare_eq_lt.mpr higher, higher]

/-- Members in the order of the source, among which the operators are totally ordered. -/
structure InOrder (items : List Item) : Prop where
  sorted : items.Pairwise fun first second => first.position < second.position
  apart : ((items.filterMap Rank.of?).map (·.position)).Nodup
  ordered : IsStrictTotalOrder {rank // rank ∈ items.filterMap Rank.of?} fun a b => a.1.compare b.1 = .lt

/-- Lists from a classified source are in order. -/
theorem inOrder_of_proper (proper : Proper registry items) : InOrder items := by
  have apart : ((items.filterMap Rank.of?).map (·.position)).Nodup := by
    refine (List.pairwise_map.mpr (proper.sorted.filterMap _ fun a b lower ofA isA ofB isB => ?_)).imp Nat.ne_of_lt
    obtain ⟨-, _, -, rfl⟩ := rank_of? isA
    obtain ⟨-, _, -, rfl⟩ := rank_of? isB
    exact lower
  have before : ∀ a b : {rank // rank ∈ items.filterMap Rank.of?}, a.1.compare b.1 = .lt ↔
      a.1.key.1 < b.1.key.1 ∨ a.1.key.1 = b.1.key.1 ∧ a.1.key.2 < b.1.key.2 :=
    fun a b => compare_eq_lt (Rank.associativity_eq proper.settled a.2 b.2)
  refine ⟨proper.sorted, apart, { trichotomous := ?_, irrefl := ?_, trans := ?_ }⟩
  · intro a b notBefore notAfter
    rw [before] at notBefore notAfter
    refine Subtype.ext (List.inj_on_of_nodup_map apart a.2 b.2 (show a.1.position = b.1.position from ?_))
    have equal : a.1.precedence = b.1.precedence := by
      simp only [Rank.key] at notBefore notAfter
      omega
    have side := Rank.associativity_eq proper.settled a.2 b.2 equal
    simp only [Rank.key, side] at notBefore notAfter
    cases grouping : b.1.associativity <;> simp only [grouping] at notBefore notAfter <;> omega
  · intro a self
    rw [before] at self
    omega
  · intro a b c first second
    rw [before] at first second ⊢
    omega

end Builder

end Reckoner
