import Citizen.Lib.OrderedMap
import Citizen.Lib.Text

/-! `initConnect` from the `playerConnecting` event on: deferrals, and the callbacks that answer the client. -/
namespace Citizen.Connect
open BitField (Byte)

attribute [local instance] byteOrder

inductive Object where
  | str (value : Text)
  | other
  deriving DecidableEq

inductive Call where
  | defer
  | update (arguments : List Object)
  | presentCard (card : Option Text)
  | done (reason : Option Object)
  deriving DecidableEq

structure DeferralState where
  done : Bool
  rejected : Bool
  description : Text
  message : Text

def DeferralState.fresh : DeferralState := ⟨false,false,[],[]⟩

structure ClientDeferral where
  m_deferralStates : OrderedMap Text DeferralState
  m_completed : Bool
  m_ranEvents : Bool
  m_pending : Bool
  m_nextCard : Text

inductive Reply where
  | defer (message : Text)
  | card (card : Text)
  | error (message : Text)
  | data
  | null
  deriving DecidableEq

inductive Phase where
  | posted
  | running
  | finished
  deriving DecidableEq

/-- `deferrals` and `deferralsRef` are the strong references to `deferral`, `cbRef` that of the callbacks to the
response; `admissions` counts the validations of the client. -/
structure Connection where
  deferral : ClientDeferral
  deferrals : Bool
  deferralsRef : Bool
  cbRef : Bool
  client : Bool
  noReason : Text
  earlyReject : Bool
  phase : Phase
  replies : List Reply
  admissions : Nat
  crashed : Bool

inductive Outcome where
  | rejected (message : Text)
  | resolved
  | waiting (progressMsg : Text)

def scan : Bool → Text → List DeferralState → Outcome
  | allDone,progressMsg,[] => if allDone then .resolved else .waiting progressMsg
  | allDone,progressMsg,ds :: rest =>
    let line := if ds.done then [] else ds.description ++ (text ": " ++ (ds.message ++ text "\n"))
    if ds.rejected then .rejected ds.message else scan (allDone && ds.done) (progressMsg ++ line) rest

namespace Connection

def start : Connection :=
  ⟨⟨.empty,false,false,false,[]⟩,true,false,true,true,text "Resource prevented connection.",false,.posted,[],0,false⟩

def reply (s : Connection) (replies : List Reply) : Connection :=
  if s.cbRef then { s with replies := s.replies ++ replies } else s

def sendError (s : Connection) (error : Text) : Connection := { s with replies := s.replies ++ [.error error,.null] }

def allowClient (s : Connection) : Connection := if s.client then { s with admissions := s.admissions + 1 } else s

def resolve (s : Connection) : Connection :=
  { s.allowClient.reply [.data,.null] with cbRef := false,deferrals := false }

def reject (s : Connection) (message : Text) : Connection :=
  let s := if s.phase = .finished then s else { s with noReason := message,earlyReject := true }
  let s := if s.client then s.reply [.error message,.null] else s
  { s with cbRef := false,deferrals := false }

def UpdateDeferrals (s : Connection) : Connection :=
  if s.deferral.m_ranEvents = false then { s with deferral := { s.deferral with m_pending := true } }
  else
    match scan true [] (s.deferral.m_deferralStates.entries.map Prod.snd) with
    | .rejected rejectionMsg => reject { s with deferral := { s.deferral with m_completed := true } } rejectionMsg
    | .resolved => resolve { s with deferral := { s.deferral with m_completed := true } }
    | .waiting progressMsg => s.reply [.defer progressMsg]

def PresentCard (s : Connection) (cardJson : Text) : Connection :=
  if s.deferral.m_ranEvents = false then { s with deferral := { s.deferral with m_nextCard := cardJson } }
  else s.reply [.card cardJson]

def RanEvents (s : Connection) : Connection :=
  let s := { s with deferral := { s.deferral with m_ranEvents := true } }
  let s :=
    if s.deferral.m_pending then
      let s := s.UpdateDeferrals
      { s with deferral := { s.deferral with m_pending := false } }
    else s
  let card := s.deferral.m_nextCard
  let s := { s with deferral := { s.deferral with m_nextCard := [] } }
  if card = [] then s else s.PresentCard card

def setState (s : Connection) (deferralKey : Text) (ds : DeferralState) : Connection :=
  { s with deferral := { s.deferral with m_deferralStates := s.deferral.m_deferralStates.insert deferralKey ds } }

def stateOf (s : Connection) (deferralKey : Text) : DeferralState :=
  (s.deferral.m_deferralStates.find deferralKey).getD .fresh

def reachable (s : Connection) : Bool :=
  s.phase ≠ .posted ∧ (s.deferrals ∨ s.deferralsRef) ∧ s.deferral.m_completed = false

def callback (s : Connection) (deferralKey : Text) (call : Call) : Connection :=
  if s.reachable = false then s
  else
    let ds := s.stateOf deferralKey
    match call with
    | .defer => (s.setState deferralKey ⟨false,false,deferralKey,text "Deferring connection..."⟩).UpdateDeferrals
    | .update [.str message] => (s.setState deferralKey { ds with message := message }).UpdateDeferrals
    | .update _ => s.setState deferralKey ds
    | .presentCard card => card.elim (s.setState deferralKey ds) (s.setState deferralKey ds).PresentCard
    | .done none => (s.setState deferralKey { ds with done := true }).UpdateDeferrals
    | .done (some (.str message)) =>
      (s.setState deferralKey { ds with done := true,message := message,rejected := true }).UpdateDeferrals
    | .done (some .other) => s.setState deferralKey { ds with done := true }

def triggerEvent (s : Connection) : Connection :=
  if s.phase ≠ .posted then s
  else if s.deferrals then { s with phase := .running,deferralsRef := true }
  else { s.sendError s.noReason with phase := .finished }

def conclude (s : Connection) (shouldAllow : Bool) : Connection :=
  let s := s.RanEvents
  if shouldAllow = false then { s with deferrals := false }.sendError s.noReason
  else if s.earlyReject then { s with deferrals := false }.sendError s.noReason
  else if s.deferral.m_deferralStates.entries = [] then
    let s := s.allowClient
    if s.deferrals then { s with cbRef := false,deferrals := false,replies := s.replies ++ [.data,.null] }
    else { s with crashed := true }
  else s

def eventHandled (s : Connection) (shouldAllow : Bool) : Connection :=
  if s.phase ≠ .running then s else { s.conclude shouldAllow with phase := .finished,deferralsRef := false }

def setKickReason (s : Connection) (reason : Text) : Connection := { s with noReason := reason }

def cancel (s : Connection) : Connection := { s with cbRef := false,deferrals := false }

def dropClient (s : Connection) : Connection := if s.phase = .finished then { s with client := false } else s

end Connection
end Citizen.Connect
