import Citizen.Bags.BagRegistry
import Citizen.Bags.StateBag
import Citizen.Net.MessageBuffer

/-! State bag updates between peers: what `SendKeyValue` puts on the wire, and what
`StateBagComponentImpl` does with a packet from a peer. -/
namespace Citizen.Bags.Wire
open BitField (Byte)
open Rl (MessageBuffer toInt)

def text (bytes : List Byte) : String := String.ofList (bytes.map (fun byte => Char.ofNat byte.toNat))

def packed (data : List Byte) : Value := ⟨.ofBitVec (data.headD 0),data.tail.map .ofBitVec⟩

/-- A queued packet. The data of the older kind are a view of the sender's buffer, none when
the cursor has gone below the buffer: as an unsigned number it then ends far behind it. -/
inductive Packet where
  | stateBag (data : Option (List Byte))
  | stateBagV2 (stateBagName key data : List Byte)
  deriving DecidableEq, Repr

/-- `WriteBits` is given a `size_t` as its `int` length. A negative one passes the check,
copies nothing and takes the cursor back. -/
def writeSized (b : MessageBuffer) (src : List Byte) : Option MessageBuffer :=
  let length := toInt (src.length * 8)
  if 0 ≤ length then some (b.writeBits src length.toNat).2
  else if 0 ≤ b.curBit + length then some { b with curBit := (b.curBit + length).toNat }
  else none

-- No field is 13 bits wide, so the length hack is not looked at.
def writeStr (b : MessageBuffer) (str : List Byte) : Option MessageBuffer :=
  (writeSized (b.write false 16 ((str.length + 1) % 2 ^ 16)) str).map (fun b => b.write false 8 0)

def writeKeyValue (dataBuffer m_id key value : List Byte) : Option MessageBuffer :=
  (writeStr ((MessageBuffer.ofData dataBuffer).setCurrentBit 0) m_id).bind (fun b =>
    (writeStr b key).bind (fun b => writeSized b value))

def SendKeyValue (role : StateBagRole) (dataBuffer m_id key value : List Byte) : Option Packet :=
  if key = [] ∨ value = [] then none
  else if role = .ClientV2 then some (.stateBagV2 m_id key value)
  else some (.stateBag ((writeKeyValue dataBuffer m_id key value).map
    (fun b => b.data.take (b.curBit / 8))))

def readStr (b : MessageBuffer) : List Byte × MessageBuffer :=
  let (length,b) := b.read false 16
  if length = 0 then ([],b)
  else
    let (_,rbuffer,b) := b.readBits (List.replicate (length - 1) 0) ((length - 1) * 8)
    (rbuffer,(b.read false 8).2)

def readPacket (dataRaw : List Byte) : Option (List Byte × List Byte × List Byte) :=
  let (idNameBuffer,buffer) := readStr (MessageBuffer.ofData dataRaw)
  if idNameBuffer = [] then none
  else
    let (keyBuffer,buffer) := readStr buffer
    if keyBuffer = [] then none
    else if buffer.isAtEnd then none
    else
      let dataLength := 8 * dataRaw.length - buffer.curBit
      if dataLength = 0 then none
      else
        let data := List.replicate ((dataLength + 7) / 8) 0
        -- not negative, as the cursor is before `m_maxBit`
        some (idNameBuffer,keyBuffer,(buffer.readBits data (toInt dataLength).toNat).2.1)

structure OwnedBag where
  bag : StateBag
  m_owningPeer : Option Int

structure Component where
  m_role : StateBagRole
  m_targets : Finset Nat
  m_preCreatePrefixes : List (List Byte × Bool)
  registry : Registry
  bags : Nat → OwnedBag

abbrev OnStateBagChange := Int → List Byte → List Byte → List Byte → Bool → Bool

namespace Component

def GetStateBag (c : Component) (id : List Byte) : Option Nat := c.registry.GetStateBag (text id)

def IsSafePreCreateName (c : Component) (id : List Byte) : Bool × Bool :=
  match c.m_preCreatePrefixes.find? (fun entry => entry.1.isPrefixOf id) with
  | some entry => (true,entry.2)
  | none => (false,false)

def PreCreateStateBag (c : Component) (id : List Byte) (useParentTargets : Bool) : Component × Nat :=
  let bag := (c.registry.RegisterStateBag (text id)).2
  let made : OwnedBag := ⟨StateBag.init c.m_role (text id) useParentTargets c.m_targets ∅,none⟩
  ({ c with registry := c.registry.PreCreateStateBag (text id),
            bags := if bag = c.registry.made then Function.update c.bags bag made else c.bags },bag)

variable (handlers : OnStateBagChange)

def SetKey (c : Component) (bag : Nat) (source : Int) (id key data : List Byte) : Component :=
  let replicated := decide (c.m_role = .Server)
  let owned := c.bags bag
  let state := owned.bag.SetKey (handlers source id key data replicated) (text key) (packed data) replicated
  { c with bags := Function.update c.bags bag { owned with bag := state } }

def findOrCreate (c : Component) (id : List Byte) : Component × Option Nat :=
  match c.GetStateBag id with
  | some bag => (c,some bag)
  | none =>
    let (safe,useParentTargets) := c.IsSafePreCreateName id
    if safe then
      let (c,bag) := c.PreCreateStateBag id useParentTargets
      (c,some bag)
    else (c,none)

def owned (c : Component) (bag : Nat) (source : Int) : Bool :=
  (c.bags bag).m_owningPeer.isNone || (c.bags bag).m_owningPeer == some source

def handleUpdate (c : Component) (source : Int) (id key data : List Byte) : Component × Option (List Byte) :=
  let (c,found) := c.findOrCreate id
  match found with
  | some bag => (if c.owned bag source then c.SetKey handlers bag source id key data else c,none)
  | none => (c,some id)

def HandlePacket (c : Component) (source : Int) (dataRaw : List Byte) : Component × Option (List Byte) :=
  match readPacket dataRaw with
  | some (id,key,data) => c.handleUpdate handlers source id key data
  | none => (c,none)

def HandlePacketV2 (c : Component) (source : Int) (stateBagName key data : List Byte) :
    Component × Option (List Byte) :=
  if stateBagName = [] ∨ key = [] ∨ data = [] then (c,none)
  else c.handleUpdate handlers source stateBagName key data

def receive (c : Component) (source : Int) : Packet → Option Component
  | .stateBag (some data) => some (c.HandlePacket handlers source data).1
  | .stateBag none => none
  | .stateBagV2 stateBagName key data => some (c.HandlePacketV2 handlers source stateBagName key data).1

def Writable (c : Component) (source : Int) (id : List Byte) : Prop :=
  match c.GetStateBag id with
  | some bag => c.owned bag source = true
  | none => (c.IsSafePreCreateName id).1 = true

def applied (c : Component) (source : Int) (id key data : List Byte) : Component :=
  match c.GetStateBag id with
  | some bag => c.SetKey handlers bag source id key data
  | none =>
    let (c,bag) := c.PreCreateStateBag id (c.IsSafePreCreateName id).2
    c.SetKey handlers bag source id key data

end Component
end Citizen.Bags.Wire
