import Citizen.Lib.LittleEndian
import Citizen.Lib.Table
import Citizen.Lib.Text

/-! Natives on objects that the server makes: the messages they send, and the list from which they are replayed to
clients that join later. Natives that create entities record nothing and are left out. -/
namespace Citizen.Rpc
open BitField (Byte)

inductive ArgumentType where
  | Entity
  | Float
  | Int
  | Bool
  | String
  | Player
  | Hash
  | ObjRef
  | ObjDel
  | Vector3
  deriving DecidableEq

inductive RpcType where
  | EntityContext
  | ObjectCreate
  deriving DecidableEq

def isObject (type : ArgumentType) : Bool := type = .ObjRef || type = .ObjDel

structure Native where
  m_gameHash : BitVec 64
  m_rpcType : RpcType
  m_arguments : List ArgumentType
  objects : (m_arguments.filter isObject).length ≤ if m_rpcType = .EntityContext then 1 else 0

structure ScriptContext where
  resourceHash : BitVec 32
  GetArgument : Nat → BitVec 32
  CheckArgument : Nat → Text
  entityBytes : BitVec 32 → Option (List Byte)
  playerNetId : Text → Option (BitVec 16)

def HashRageString (string : Text) : BitVec 32 :=
  let mixed := string.foldl (fun (hash : BitVec 32) ch =>
    let hash := hash + ch.signExtend 32
    let hash := hash + (hash <<< 10)
    hash ^^^ (hash >>> 6)) 0
  let mixed := mixed + (mixed <<< 3)
  let mixed := mixed ^^^ (mixed >>> 11)
  mixed + (mixed <<< 15)

structure Message where
  buffer : List Byte
  replay : Bool
  delThis : Bool
  delId : BitVec 32

def Message.Write (m : Message) (data : List Byte) : Message := { m with buffer := m.buffer ++ data }

def writeArgument (ctx : ScriptContext) (i : Nat) (m : Message) : ArgumentType → Option Message
  | .Entity => (ctx.entityBytes (ctx.GetArgument i)).map m.Write
  | .ObjRef =>
    let obj := ctx.GetArgument i - 0x1000000
    some { m.Write (LittleEndian.bytes 4 obj.toNat) with replay := true,delId := obj }
  | .ObjDel =>
    let obj := ctx.GetArgument i - 0x1000000
    some { m.Write (LittleEndian.bytes 4 obj.toNat) with delThis := true,delId := obj }
  | .Player => (ctx.playerNetId (ctx.CheckArgument i)).map (fun id => m.Write (LittleEndian.bytes 2 id.toNat))
  | .Int | .Hash | .Float => some (m.Write (LittleEndian.bytes 4 (ctx.GetArgument i).toNat))
  | .Bool => some (m.Write [if (ctx.GetArgument i).setWidth 8 = 0 then 0 else 1])
  | .String =>
    let str := ctx.CheckArgument i
    some (m.Write (LittleEndian.bytes 2 str.length ++ str))
  | .Vector3 => some m

def writeArguments (ctx : ScriptContext) : Nat → List ArgumentType → Message → Option Message
  | _,[],m => some m
  | i,type :: rest,m => (writeArgument ctx i m type).bind (writeArguments ctx (i + 1) rest)

inductive SyncCallback where
  | pushBack (creationToken : BitVec 32) (nativeHash : BitVec 64) (buffer : List Byte)
  | replace (delId : BitVec 32) (nativeHash : BitVec 64) (buffer : List Byte)
  deriving DecidableEq

abbrev Record := BitVec 64 × List Byte

namespace SyncCallback

def object : SyncCallback → BitVec 32
  | .pushBack creationToken _ _ => creationToken
  | .replace delId _ _ => delId

def record : SyncCallback → Record
  | .pushBack _ nativeHash buffer => (nativeHash,buffer)
  | .replace _ nativeHash buffer => (nativeHash,buffer)

def apply (rl : List Record) : SyncCallback → List Record
  | .pushBack _ nativeHash buffer => rl ++ [(nativeHash,buffer)]
  | .replace _ nativeHash buffer => rl.filter (fun it => it.1 ≠ nativeHash) ++ [(nativeHash,buffer)]

end SyncCallback

structure RpcState where
  g_objectToken : Nat
  g_replayList : Table (BitVec 32) (List Record)
  syncCallbacks : List SyncCallback

def nextToken (token : Nat) : Nat := 12820163 * token % (2 ^ 24 - 1)

namespace RpcState

def fresh : RpcState := ⟨1,∅,[]⟩

def replayList (s : RpcState) (object : BitVec 32) : List Record := (s.g_replayList.lookup object).getD []

def creationToken (s : RpcState) : BitVec 32 := BitVec.ofNat 32 (nextToken s.g_objectToken)

def message (s : RpcState) (native : Native) (ctx : ScriptContext) : Option Message :=
  let token := if native.m_rpcType = .ObjectCreate then LittleEndian.bytes 4 s.creationToken.toNat else []
  let header := LittleEndian.bytes 4 (HashRageString (text "msgRpcNative")).toNat ++
    (LittleEndian.bytes 8 native.m_gameHash.toNat ++ (LittleEndian.bytes 4 ctx.resourceHash.toNat ++ token))
  writeArguments ctx 0 native.m_arguments ⟨header,native.m_rpcType = .ObjectCreate,false,0⟩

def callback (s : RpcState) (native : Native) (m : Message) : Option SyncCallback :=
  match native.m_rpcType with
  | .ObjectCreate => if m.replay then some (.pushBack s.creationToken native.m_gameHash m.buffer) else none
  | .EntityContext => if m.replay then some (.replace m.delId native.m_gameHash m.buffer) else none

def callNative (s : RpcState) (native : Native) (ctx : ScriptContext) : RpcState × Option (BitVec 32) :=
  let drawn := if native.m_rpcType = .ObjectCreate then nextToken s.g_objectToken else s.g_objectToken
  match s.message native ctx with
  | none => ({ s with g_objectToken := drawn },none)
  | some m =>
    ({ g_objectToken := drawn
       g_replayList := if m.delThis then s.g_replayList.insert m.delId [] else s.g_replayList
       syncCallbacks := s.syncCallbacks ++ (s.callback native m).toList },
      if native.m_rpcType = .ObjectCreate then some (s.creationToken + 0x1000000) else none)

def runCallback (s : RpcState) : RpcState :=
  match s.syncCallbacks with
  | [] => s
  | c :: rest =>
    { s with
      g_replayList := s.g_replayList.insert c.object (c.apply (s.replayList c.object))
      syncCallbacks := rest }

def OnCreatePed (s : RpcState) : List (BitVec 32 × Record) :=
  s.g_replayList.entries.flatMap (fun entry => entry.2.map (Prod.mk entry.1))

end RpcState

end Citizen.Rpc
