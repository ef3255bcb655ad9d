import Citizen.Lib.HttpMessage

/-! Requests, and the header maps of requests and responses. -/
namespace Citizen.Http
open BitField (Byte)

def headerKey (name : Text) : List Int := name.map (fun b => (tolower b).toInt)

structure HeaderMap where
  entries : List (Text × Text)
  sorted : entries.Pairwise (fun a b => headerKey a.1 ≤ headerKey b.1)

namespace HeaderMap

def empty : HeaderMap := ⟨[],List.Pairwise.nil⟩

def find (m : HeaderMap) (name : Text) : Option Text :=
  (m.entries.find? (fun e => headerKey e.1 = headerKey name)).map Prod.snd

def erase (m : HeaderMap) (name : Text) : HeaderMap :=
  ⟨m.entries.filter (fun e => headerKey e.1 ≠ headerKey name),m.sorted.filter _⟩

def insert (m : HeaderMap) (name value : Text) : HeaderMap where
  entries := m.entries.filter (fun e => headerKey e.1 ≤ headerKey name) ++
    (name,value) :: m.entries.filter (fun e => headerKey name < headerKey e.1)
  sorted := by
    have upTo {e : Text × Text} (mem : e ∈ m.entries.filter (fun e => headerKey e.1 ≤ headerKey name)) :
        headerKey e.1 ≤ headerKey name := of_decide_eq_true (List.mem_filter.mp mem).2
    have after {e : Text × Text} (mem : e ∈ m.entries.filter (fun e => headerKey name < headerKey e.1)) :
        headerKey name < headerKey e.1 := of_decide_eq_true (List.mem_filter.mp mem).2
    refine List.pairwise_append.mpr ⟨m.sorted.filter _,
      List.pairwise_cons.mpr ⟨fun e mem => le_of_lt (after mem),m.sorted.filter _⟩,fun a memA b memB => ?_⟩
    rcases List.mem_cons.mp memB with rfl | memB
    · exact upTo memA
    · exact (upTo memA).trans (le_of_lt (after memB))

end HeaderMap

structure HttpRequest where
  httpVersion : Nat × Nat
  requestMethod : Text
  path : Text
  headerList : HeaderMap

def HttpRequest.GetHeader (request : HttpRequest) (key default : Text) : Text :=
  (request.headerList.find key).getD default

structure HttpState where
  blocked : Bool
  ping : Bool
  deriving DecidableEq

def HttpState.unblock (state : HttpState) : HttpState × Bool :=
  if state.blocked then ({ state with blocked := false },state.ping) else (state,false)

end Citizen.Http
