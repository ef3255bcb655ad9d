import Citizen.Lib.CString
import Citizen.Lib.OrderedMap
import Citizen.Lib.Run

/-! `HttpServerManager`: which handler a request is passed to, after any calls of `AddEndpoint` and `RemoveEndpoint`. -/
namespace Citizen.Http

attribute [local instance] byteOrder

inductive EndpointCall (handler : Type) where
  | AddEndpoint (endpoint : Text) (h : handler)
  | RemoveEndpoint (endpoint : Text)

inductive Dispatched (handler : Type) where
  | handled (h : handler)
  | notFound (body : Text)
  deriving DecidableEq

section
variable {handler : Type}

def matchesEndpoint (endpoint path : Text) : Bool :=
  if endpoint ≠ text "/" then
    strnicmp endpoint.length path endpoint ||
      ((text "/").isSuffixOf endpoint && path = endpoint.take (endpoint.length - 1))
  else path = cString endpoint

def HandleRequest (m_handlers : OrderedMap Text handler) (path : Text) : Dispatched handler :=
  match m_handlers.entries.find? (fun entry => matchesEndpoint entry.1 path) with
  | some entry => .handled entry.2
  | none => .notFound (text "Route " ++ cString path ++ text " not found.")

namespace EndpointCall

def apply (m_handlers : OrderedMap Text handler) : EndpointCall handler → OrderedMap Text handler
  | AddEndpoint endpoint h => if m_handlers.find endpoint = none then m_handlers.insert endpoint h else m_handlers
  | RemoveEndpoint endpoint => m_handlers.erase endpoint

end EndpointCall

def registered (endpoint : Text) : List (EndpointCall handler) → Option handler :=
  List.foldl (fun known call =>
    match call with
    | .AddEndpoint other h => if other = endpoint then known.or (some h) else known
    | .RemoveEndpoint other => if other = endpoint then none else known) none

theorem registeredAfter (endpoint : Text) (calls : List (EndpointCall handler)) :
    (run EndpointCall.apply .empty calls).find endpoint = registered endpoint calls := by
  unfold registered run
  suffices step : ∀ (m : OrderedMap Text handler) (known : Option handler), m.find endpoint = known →
      (calls.foldl EndpointCall.apply m).find endpoint = calls.foldl _ known from step _ _ rfl
  intro m known same
  induction calls generalizing m known with
  | nil => exact same
  | cons call rest ih =>
    refine ih _ _ ?_
    cases call with
    | AddEndpoint other h =>
      dsimp only [EndpointCall.apply]
      subst same
      split
      · rename_i free
        rw [OrderedMap.findInsert]
        by_cases own : endpoint = other
        · subst own
          simp [free]
        · simp [own,Ne.symm own]
      · rename_i taken
        split
        · rename_i own
          subst own
          obtain ⟨held,isHeld⟩ := Option.ne_none_iff_exists'.mp taken
          rw [isHeld]
          rfl
        · rfl
    | RemoveEndpoint other =>
      dsimp only [EndpointCall.apply]
      rw [OrderedMap.findErase,same]
      by_cases own : other = endpoint
      · rw [if_pos own,if_pos own.symm]
      · rw [if_neg own,if_neg (Ne.symm own)]

theorem shorterMatches {shorter endpoint path : Text} (fits : matchesEndpoint endpoint path = true)
    (starts : shorter <+: endpoint) (other : shorter ≠ endpoint) (notRoot : shorter ≠ text "/") :
    matchesEndpoint shorter path = true := by
  have few : shorter.length < endpoint.length :=
    lt_of_le_of_ne starts.length_le (fun same => other (starts.eq_of_length same))
  suffices begun : strnicmp shorter.length path endpoint = true by
    have same : strnicmp shorter.length path shorter = true := by
      simp only [strnicmp,strncmp,decide_eq_true_iff] at begun ⊢
      rw [begun,← List.map_take,← List.map_take,← List.prefix_iff_eq_take.mp starts,List.take_length]
    simp [matchesEndpoint,notRoot,same]
  have fitsShorter : strnicmp endpoint.length path endpoint = true → strnicmp shorter.length path endpoint = true :=
    strncmpFewer (le_of_lt few)
  unfold matchesEndpoint at fits
  split at fits
  · rcases Bool.or_eq_true_iff.mp fits with begun | cut
    · exact fitsShorter begun
    · have path' := of_decide_eq_true (Bool.and_eq_true_iff.mp cut).2
      subst path'
      rw [strnicmp,strncmp,decide_eq_true_iff,List.map_take,List.take_take,min_eq_left (by omega)]
  · have path' := of_decide_eq_true fits
    rename_i root
    rw [not_not] at root
    subst root path'
    exact fitsShorter (by decide)

theorem leastServes (calls : List (EndpointCall handler)) (path : Text) :
    (∀ h, HandleRequest (run EndpointCall.apply .empty calls) path = .handled h ↔
      ∃ endpoint, registered endpoint calls = some h ∧ matchesEndpoint endpoint path = true ∧
        (∀ other, registered other calls ≠ none → matchesEndpoint other path = true → endpoint ≤ other) ∧
        ∀ other, registered other calls ≠ none → other <+: endpoint → other = endpoint ∨ other = text "/") ∧
    ((∃ body, HandleRequest (run EndpointCall.apply .empty calls) path = .notFound body) ↔
      ∀ endpoint, registered endpoint calls ≠ none → matchesEndpoint endpoint path = false) := by
  simp only [← registeredAfter]
  generalize run EndpointCall.apply .empty calls = m_handlers
  unfold HandleRequest
  cases found : m_handlers.entries.find? (fun entry => matchesEndpoint entry.1 path) with
  | none =>
    have none_ (endpoint : Text) (known : m_handlers.find endpoint ≠ none) : matchesEndpoint endpoint path = false := by
      obtain ⟨h,isH⟩ := Option.ne_none_iff_exists'.mp known
      simpa using List.find?_eq_none.mp found _ (OrderedMap.findSome.mp isH)
    refine ⟨fun h => iff_of_false (by simp) ?_,iff_of_true ⟨_,rfl⟩ none_⟩
    rintro ⟨endpoint,known,fits,_⟩
    rw [none_ endpoint (by rw [known]; exact Option.some_ne_none h)] at fits
    cases fits
  | some entry =>
    obtain ⟨endpoint,served⟩ := entry
    obtain ⟨known,fits,least⟩ := OrderedMap.firstLeast (p := fun endpoint => matchesEndpoint endpoint path).mp found
    have listed : m_handlers.find endpoint ≠ none := by
      rw [known]
      exact Option.some_ne_none served
    constructor
    · intro h
      constructor
      · intro same
        cases same
        refine ⟨endpoint,known,fits,least,fun other present starts => ?_⟩
        by_contra neither
        obtain ⟨differs,notRoot⟩ := not_or.mp neither
        have above := least other present (shorterMatches fits starts differs notRoot)
        have below : other ≤ endpoint := not_lt.mp (OrderedMap.prefixNotAbove starts)
        exact differs (le_antisymm below above)
      · rintro ⟨endpoint',known',fits',least',_⟩
        have present : m_handlers.find endpoint' ≠ none := by
          rw [known']
          exact Option.some_ne_none h
        have same : endpoint' = endpoint := le_antisymm (least' endpoint listed fits) (least endpoint' present fits')
        rw [same,known] at known'
        exact congrArg Dispatched.handled (Option.some.inj known')
    · refine iff_of_false (by simp) (fun all => ?_)
      rw [all endpoint listed] at fits
      cases fits

end

theorem outerServes :
    let calls : List (EndpointCall Nat) := [.AddEndpoint (text "/a") 1,.AddEndpoint (text "/a/b") 2]
    registered (text "/a/b") calls = some 2 ∧ matchesEndpoint (text "/a/b") (text "/a/b") = true ∧
      HandleRequest (run EndpointCall.apply .empty calls) (text "/a/b") = .handled 1 := by
  decide

end Citizen.Http
