import TorrentMq.Security.AclEngine

/-!
# Precedence of access rules

Which rule decides a request, and whether it is one that the documented order
puts first. The documented order looks at where the patterns have wildcards; the
engine weighs the bytes of the patterns that are not `*`.
-/

set_option autoImplicit false

namespace TorrentMq.Security

open Bytes List OrderDual

def isExact (pattern : Bytes) : Bool := !pattern.contains kAnyText && !pattern.contains kAnyByte

def AclRule.tier (rule : AclRule) : Bool ×ₗ Bool ×ₗ Bool :=
  toLex (!isExact rule.principalPattern, toLex (!isExact rule.hostPattern, !isExact rule.resourcePattern))

/-- The documented order: where the wildcards are, in the principal, then in the host, then in the resource. -/
def AclRule.precedes (left right : AclRule) : Prop := left.tier < right.tier

instance (left right : AclRule) : Decidable (left.precedes right) := inferInstanceAs (Decidable (_ < _))

/-!
## Weights
-/

/-- The bytes of a pattern that are not `*`. -/
def literals (pattern : Bytes) : Nat := (pattern.filter (· ≠ kAnyText)).length

namespace AclRule

variable (rule left right : AclRule)

/-- The literal bytes of the principal, of the resource and of the host. Every thousand of a field carries over to
the field before it. -/
def places : Nat ×ₗ Nat ×ₗ Nat :=
  let carried := literals rule.resourcePattern + literals rule.hostPattern / 1000
  toLex (literals rule.principalPattern + carried / 1000, toLex (carried % 1000, literals rule.hostPattern % 1000))

def weight : Nat :=
  literals rule.principalPattern * 1000000 + literals rule.resourcePattern * 1000 + literals rule.hostPattern

/-- The weight fits into an `int`. -/
def InRange : Prop := rule.places ≤ toLex (2147, toLex (483, 647))

instance : Decidable rule.InRange := inferInstanceAs (Decidable (_ ≤ _))

/-- Weights that do not fit into an `int` wrap around. -/
def Outweighs : Prop :=
  if left.InRange ∧ right.InRange then right.places < left.places
  else Int.bmod right.weight (2 ^ 32) < Int.bmod left.weight (2 ^ 32)

variable {rule left right}

theorem places_lt_iff : left.places < right.places ↔ left.weight < right.weight := by
  simp only [places, weight, Prod.Lex.toLex_lt_toLex]
  omega

theorem inRange_iff : rule.InRange ↔ rule.weight < 2 ^ 31 := by
  simp only [InRange, places, weight, Prod.Lex.toLex_le_toLex]
  omega

theorem specificity_eq : rule.specificity = Int.bmod rule.weight (2 ^ 32) := by
  unfold specificity weight literals fieldSpec
  simp only [countP_eq_length_filter]
  push_cast
  rfl

theorem specificity_of_inRange (inRange : rule.InRange) : rule.specificity = rule.weight := by
  have small := inRange_iff.mp inRange
  rw [specificity_eq]
  exact Int.bmod_eq_of_le (by omega) (by omega)

/-- Carries and all, the engine's score orders rules by their literal bytes. -/
theorem outweighs_iff : left.Outweighs right ↔ right.specificity < left.specificity := by
  unfold Outweighs
  split
  next inRange =>
    rw [places_lt_iff, specificity_of_inRange inRange.1, specificity_of_inRange inRange.2, Int.ofNat_lt]
  next => rw [specificity_eq, specificity_eq]

end AclRule

/-!
## Deciding rules
-/

namespace AclEngine

/-- A matching rule that no other matching rule precedes. -/
structure Foremost (engine : AclEngine) (request : AccessRequest) (rule : AclRule) : Prop where
  stored : rule ∈ engine.rules
  applies : rule.matches request = true
  first : ∀ other ∈ engine.rules, other.matches request = true → ¬other.precedes rule

/-- The request is decided by a foremost rule, or denied without any. -/
structure Respects (engine : AclEngine) (request : AccessRequest) : Prop where
  decided : (∃ rule ∈ engine.rules, rule.matches request = true) →
    ∃ rule, engine.Foremost request rule ∧ engine.checkAccess request = rule.allow
  denied : (∀ rule ∈ engine.rules, rule.matches request = false) → engine.checkAccess request = false

/-- A matching rule that no other matching rule outweighs. -/
structure Heaviest (engine : AclEngine) (request : AccessRequest) (rule : AclRule) : Prop where
  stored : rule ∈ engine.rules
  applies : rule.matches request = true
  unbeaten : ∀ other ∈ engine.rules, other.matches request = true → ¬other.Outweighs rule

/-- Some foremost rule allows just what one of the heaviest rules allows. -/
def WeightsAgree (engine : AclEngine) (request : AccessRequest) : Prop :=
  (∃ rule ∈ engine.rules, rule.matches request = true) → ∃ best, engine.Foremost request best ∧
    (best.allow = true ↔ ∃ rule, engine.Heaviest request rule ∧ rule.allow = true)

end AclEngine

def sortKey (rule : AclRule) : Intᵒᵈ ×ₗ Boolᵒᵈ ×ₗ List Nat ×ₗ List Nat ×ₗ List Nat ×ₗ List Nat :=
  toLex (toDual rule.specificity, toLex (toDual rule.allow, tieBreak rule))

theorem sortsBefore_iff (left right : AclRule) : sortsBefore left right = true ↔ sortKey left < sortKey right := by
  simp only [sortKey, Prod.Lex.toLex_lt_toLex, toDual_lt_toDual, toDual_inj]
  unfold sortsBefore
  by_cases score : left.specificity = right.specificity
  · by_cases flag : left.allow = right.allow
    · simp [score, flag]
    · cases allowed : left.allow <;> cases allowed' : right.allow <;> simp_all
  · simp [score]

theorem not_sortsBefore_iff (left right : AclRule) :
    sortsBefore right left = false ↔ sortKey left ≤ sortKey right := by
  rw [← not_lt, ← sortsBefore_iff, Bool.not_eq_true]

instance : Std.Total fun left right => sortsBefore right left = false where
  total left right := by
    simp only [not_sortsBefore_iff]
    exact le_total _ _

instance : IsTrans AclRule fun left right => sortsBefore right left = false where
  trans left middle right := by
    simp only [not_sortsBefore_iff]
    exact le_trans

namespace AclEngine

variable {engine : AclEngine} {request : AccessRequest} {rule : AclRule}

def Sorted (engine : AclEngine) : Prop := engine.rules.Pairwise fun left right => sortsBefore right left = false

theorem reindex_sorted (engine : AclEngine) : engine.reindex.Sorted := pairwise_insertionSort _ _

theorem step_sorted (sorted : engine.Sorted) (call : Call) : (engine.step call).Sorted := by
  cases call with
  | add rule => exact reindex_sorted _
  | remove principalPattern hostPattern resourcePattern operation =>
    simp only [step, removeRule]
    split
    · exact reindex_sorted _
    · exact sorted

theorem built_sorted (calls : List Call) : (built calls).Sorted :=
  (@Runs.meets_of_forall _ _ step (fun _ => True) calls (fun _ _ => trivial) {}).preserves Sorted
    (fun _ call _ sorted => step_sorted sorted call) .nil

theorem sortKey_le_of_find? (sorted : engine.Sorted)
    (found : engine.rules.find? (fun rule => rule.matches request) = some rule) :
    ∀ other ∈ engine.rules, other.matches request = true → sortKey rule ≤ sortKey other := by
  intro other stored applies
  obtain ⟨-, before, after, split, earlier⟩ := find?_eq_some_iff_append.mp found
  rw [split] at stored
  cases mem_append.mp stored with
  | inl skipped => exact absurd applies (by simpa using earlier other skipped)
  | inr rest =>
    cases rest with
    | head => exact le_refl _
    | tail _ behind =>
      have ordered := sorted
      rw [Sorted, split, pairwise_append] at ordered
      exact (not_sortsBefore_iff _ _).mp ((pairwise_cons.mp ordered.2.1).1 other behind)

theorem heaviest_of_find? (sorted : engine.Sorted)
    (found : engine.rules.find? (fun rule => rule.matches request) = some rule) : engine.Heaviest request rule := by
  refine ⟨mem_of_find?_eq_some found, by simpa using find?_some found, fun other stored applies outweighs => ?_⟩
  have below := sortKey_le_of_find? sorted found other stored applies
  have above := AclRule.outweighs_iff.mp outweighs
  simp only [sortKey, Prod.Lex.toLex_le_toLex, toDual_lt_toDual, toDual_inj] at below
  omega

/-- Among rules of one weight the allowing ones come first. -/
theorem allow_of_find? (sorted : engine.Sorted)
    (found : engine.rules.find? (fun rule => rule.matches request) = some rule) {other : AclRule}
    (heaviest : engine.Heaviest request other) (allowed : other.allow = true) : rule.allow = true := by
  have first := heaviest_of_find? sorted found
  have not_above := mt AclRule.outweighs_iff.mpr (heaviest.unbeaten rule first.stored first.applies)
  have not_below := mt AclRule.outweighs_iff.mpr (first.unbeaten other heaviest.stored heaviest.applies)
  have same : rule.specificity = other.specificity := by omega
  have least := sortKey_le_of_find? sorted found other heaviest.stored heaviest.applies
  simp only [sortKey, Prod.Lex.toLex_le_toLex, toDual_lt_toDual, toDual_inj, same, lt_irrefl, false_or, true_and,
    allowed] at least
  cases least with
  | inl above => exact absurd above (not_lt.mpr (Bool.le_true _))
  | inr permitted => exact permitted.1

theorem checkAccess_of_none (unmatched : ∀ rule ∈ engine.rules, rule.matches request = false) :
    engine.checkAccess request = false := by
  have missing : engine.rules.find? (fun rule => rule.matches request) = none :=
    List.find?_eq_none.mpr fun rule stored => by simp [unmatched rule stored]
  simp only [checkAccess, missing]

/-- A request is granted when one of the heaviest rules allows it. -/
theorem checkAccess_iff (sorted : engine.Sorted) :
    engine.checkAccess request = true ↔ ∃ rule, engine.Heaviest request rule ∧ rule.allow = true := by
  unfold checkAccess
  cases found : engine.rules.find? fun rule => rule.matches request with
  | none =>
    refine ⟨nofun, fun ⟨rule, heaviest, _⟩ => ?_⟩
    exact absurd heaviest.applies (by simpa using List.find?_eq_none.mp found rule heaviest.stored)
  | some first =>
    refine ⟨fun allowed => ⟨first, heaviest_of_find? sorted found, allowed⟩, ?_⟩
    rintro ⟨rule, heaviest, allowed⟩
    exact allow_of_find? sorted found heaviest allowed

/-- After any sequence of calls a request is decided in the documented order exactly when some
foremost rule agrees with the heaviest ones. -/
theorem respects_iff_weightsAgree (calls : List Call) (request : AccessRequest) :
    (built calls).Respects request ↔ (built calls).WeightsAgree request := by
  have granted := @checkAccess_iff (built calls) request (built_sorted calls)
  constructor
  · intro respects matched
    obtain ⟨best, foremost, answer⟩ := respects.decided matched
    exact ⟨best, foremost, by rw [← answer, granted]⟩
  · intro agree
    refine ⟨fun matched => ?_, checkAccess_of_none⟩
    obtain ⟨best, foremost, same⟩ := agree matched
    exact ⟨best, foremost, Bool.eq_iff_iff.mpr (granted.trans same.symm)⟩

def outscoredCalls : List Call :=
  [ .add { principalPattern := text "ann", hostPattern := text "*", resourcePattern := text "*",
           operation := text "ALL", allow := false }
  , .add { principalPattern := text "ann*", hostPattern := text "*", resourcePattern := text "log",
           operation := text "READ", allow := true } ]

theorem outscoredCalls_not_respects :
    ¬∀ (calls : List Call) (request : AccessRequest), (built calls).Respects request := by
  intro all
  let request : AccessRequest :=
    { principal := text "ann", host := text "h", resource := text "log", operation := text "READ" }
  obtain ⟨rule, foremost, answer⟩ := (all outscoredCalls request).decided (by decide +kernel)
  have overruled : ∀ rule ∈ (built outscoredCalls).rules,
      (∀ other ∈ (built outscoredCalls).rules, other.matches request = true → ¬other.precedes rule) →
        (built outscoredCalls).checkAccess request ≠ rule.allow := by decide +kernel
  exact overruled rule foremost.stored foremost.first answer

end AclEngine

/-!
## Where the orders agree
-/

namespace AclEngine

variable {engine : AclEngine} {request : AccessRequest}

/-- Where rules that come first outweigh the others, the documented order is kept. -/
theorem respects_of_outweighs (sorted : engine.Sorted)
    (heavier : ∀ left ∈ engine.rules, ∀ right ∈ engine.rules, left.matches request = true →
      right.matches request = true → left.precedes right → left.Outweighs right) : engine.Respects request := by
  refine ⟨fun ⟨rule, stored, applies⟩ => ?_, checkAccess_of_none⟩
  cases found : engine.rules.find? fun rule => rule.matches request with
  | none => exact absurd applies (by simpa using List.find?_eq_none.mp found rule stored)
  | some first =>
    have heaviest := heaviest_of_find? sorted found
    refine ⟨first, ⟨heaviest.stored, heaviest.applies, fun other stored applies precedes => ?_⟩, ?_⟩
    · exact heaviest.unbeaten other stored applies (heavier other stored first heaviest.stored applies heaviest.applies
        precedes)
    · simp only [checkAccess, found]

end AclEngine

/-- A pattern for one value, or for all of them. -/
def IsPlain (pattern : Bytes) : Prop := isExact pattern = true ∨ pattern = [kAnyText]

section

variable {pattern value : Bytes}

theorem eq_of_wildcardMatch (exact : isExact pattern = true) (matched : wildcardMatch pattern value = true) :
    pattern = value := by
  induction pattern generalizing value with
  | nil => exact (isEmpty_iff.mp matched).symm
  | cons byte pattern ih =>
    simp only [isExact, contains_cons, Bool.not_or, Bool.and_eq_true, Bool.not_eq_true', beq_eq_false_iff_ne] at exact
    obtain ⟨⟨not_text, no_text⟩, not_byte, no_byte⟩ := exact
    rw [wildcardMatch, if_neg (Ne.symm not_text), if_neg (Ne.symm not_byte), Bool.and_eq_true,
      decide_eq_true_iff] at matched
    obtain ⟨rest, rfl⟩ := head?_eq_some_iff.mp matched.1
    have shorter : isExact pattern = true := by
      rw [isExact, no_text, no_byte]
      rfl
    rw [ih shorter matched.2, tail_cons]

theorem literals_of_plain (plain : IsPlain pattern) (matched : wildcardMatch pattern value = true) :
    literals pattern = if isExact pattern then value.length else 0 := by
  rcases plain with exact | rfl
  · obtain rfl := eq_of_wildcardMatch exact matched
    rw [if_pos exact, literals, filter_eq_self.mpr]
    intro byte member
    have absent := (Bool.and_eq_true _ _ ▸ exact).1
    rw [Bool.not_eq_true', contains_eq_any_beq, any_eq_false] at absent
    exact decide_eq_true fun same => absent byte member (beq_iff_eq.mpr same.symm)
  · rfl

end

/-- Patterns for one value or for all, the same one for every host, and values whose lengths carry nothing over. -/
structure AclEngine.Plain (engine : AclEngine) (request : AccessRequest) : Prop where
  principals : ∀ rule ∈ engine.rules, IsPlain rule.principalPattern
  hosts : ∀ rule ∈ engine.rules, rule.hostPattern = [kAnyText]
  resources : ∀ rule ∈ engine.rules, IsPlain rule.resourcePattern
  principal : 0 < request.principal.length ∧ request.principal.length < 2147
  resource : 0 < request.resource.length ∧ request.resource.length < 1000

/-- Plain rules are followed in the documented order. -/
theorem AclEngine.respects_of_plain {calls : List Call} {request : AccessRequest}
    (plain : (built calls).Plain request) : (built calls).Respects request := by
  have weighs : ∀ rule ∈ (built calls).rules, rule.matches request = true →
      literals rule.principalPattern = (if isExact rule.principalPattern then request.principal.length else 0) ∧
        literals rule.resourcePattern = (if isExact rule.resourcePattern then request.resource.length else 0) ∧
          literals rule.hostPattern = 0 ∧ isExact rule.hostPattern = false := by
    intro rule stored applies
    simp only [AclRule.matches, Bool.and_eq_true] at applies
    refine ⟨literals_of_plain (plain.principals rule stored) applies.1.1.1,
      literals_of_plain (plain.resources rule stored) applies.1.2, ?_⟩
    rw [plain.hosts rule stored]
    exact ⟨rfl, rfl⟩
  refine respects_of_outweighs (built_sorted calls) fun left stored right stored' applies applies' precedes => ?_
  obtain ⟨principal, resource, host, anyHost⟩ := weighs left stored applies
  obtain ⟨principal', resource', host', anyHost'⟩ := weighs right stored' applies'
  have lengths := plain.principal
  have lengths' := plain.resource
  have inRange : left.InRange ∧ right.InRange := by
    rw [AclRule.inRange_iff, AclRule.inRange_iff, AclRule.weight, AclRule.weight, principal, resource, host, principal',
      resource', host']
    constructor <;> split_ifs <;> omega
  rw [AclRule.Outweighs, if_pos inRange, AclRule.places_lt_iff, AclRule.weight, AclRule.weight, principal, resource,
    host, principal', resource', host']
  simp only [AclRule.precedes, AclRule.tier, Prod.Lex.toLex_lt_toLex, anyHost, anyHost', lt_irrefl, false_or, true_and,
    Bool.lt_iff, Bool.not_eq_false', Bool.not_eq_true', Bool.not_inj_iff] at precedes
  rcases precedes with ⟨exact, notExact⟩ | ⟨same, exact, notExact⟩
  · rw [if_pos exact, if_neg (ne_true_of_eq_false notExact)]
    split_ifs <;> omega
  · rw [if_pos exact, if_neg (ne_true_of_eq_false notExact), same]
    omega

end TorrentMq.Security
