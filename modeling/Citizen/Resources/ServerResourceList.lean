import Citizen.Lib.Text
import Mathlib.Data.Finset.Erase
import Mathlib.Data.Finset.Insert

/-! The scan of the two resource roots. -/
namespace Citizen.Resources

namespace ServerResourceList

inductive Root where
  | resources
  | system_resources
  deriving DecidableEq

structure ResPath where
  root : Root
  below : List Text
  deriving DecidableEq

inductive Node where
  | file (name : Text)
  | directory (name : Text) (nodes : List Node)

structure Disk where
  nodes : Root → List Node
  loads : ResPath → Bool
  resources_useSystemChat : Bool

structure Url where
  fragment : Text → Text
  pathname : ResPath → ResPath

inductive Effect where
  | unmounted (name : Text)
  | stopped (name : Text)
  | removed (name : Text)
  | reloaded (name : Text) (path : ResPath)
  | added (name : Text) (path : ResPath)
  | failed (name : Text) (path : ResPath)
  | duplicate_resource (name : Text) (path scanned : ResPath)
  deriving DecidableEq

end ServerResourceList

open ServerResourceList

structure ServerResourceList where
  m_resources : Text → Option ResPath
  m_scanData : Text → Option ResPath
  m_resourcesByComponent : Text → Finset Text

namespace ServerResourceList

def Create : ServerResourceList := ⟨fun _ => none,fun _ => none,fun _ => ∅⟩

def isCategory (name : Text) : Bool := name.head? = some (byte '[') && name.getLast? = some (byte ']')

def skipped (disk : Disk) (root : Root) (name : Text) : Bool :=
  name = text "." || name = text ".." || name = text ".git" ||
    (name = text "chat" && disk.resources_useSystemChat ≠ decide (root = .system_resources))

def ignored (name : Text) : Bool := name.head? = some (byte '.') || name.map tolower = text "txadmin"

variable (url : Url) (disk : Disk) (list : ServerResourceList)

def AddResource (name : Text) (resPath : ResPath) : ServerResourceList × Effect :=
  let fragRef := url.fragment name
  let path := url.pathname resPath
  if disk.loads path then
    ({ list with
        m_resources := Function.update list.m_resources fragRef (some path)
        m_resourcesByComponent := fun component =>
          if (resPath.below.filter isCategory).contains component then insert fragRef (list.m_resourcesByComponent component)
          else list.m_resourcesByComponent component },
      .added fragRef path)
  else ({ list with m_resources := Function.update list.m_resources fragRef none },.failed fragRef path)

def unload (name : Text) : ServerResourceList :=
  { list with
    m_resources := Function.update list.m_resources name none
    m_resourcesByComponent := fun component => (list.m_resourcesByComponent component).erase name }

structure Scan where
  list : ServerResourceList
  scannedNow : Text → Option ResPath
  effects : List Effect

def scanResource (scan : Scan) (resourceName : Text) (resPath : ResPath) : Scan :=
  match scan.scannedNow resourceName with
  | some scanned => { scan with effects := scan.effects ++ [.duplicate_resource resourceName resPath scanned] }
  | none =>
    if ignored resourceName then scan
    else
      let scannedNow := Function.update scan.scannedNow resourceName (some resPath)
      let oldRes := scan.list.m_resources resourceName
      let oldScanData := scan.list.m_scanData resourceName
      -- did the path change? if so, unload the old resource
      let changed := oldRes.isSome ∧ oldScanData.isSome ∧ oldScanData ≠ some resPath
      let list := if changed then scan.list.unload resourceName else scan.list
      let effects :=
        if changed then scan.effects ++ [.unmounted resourceName,.stopped resourceName,.removed resourceName] else scan.effects
      if oldRes.isSome ∧ ¬changed then ⟨list,scannedNow,effects ++ [.reloaded resourceName resPath]⟩
      else
        let list := { list with m_scanData := Function.update list.m_scanData resourceName (some resPath) }
        let (list,effect) := list.AddResource url disk resourceName resPath
        ⟨list,scannedNow,effects ++ [effect]⟩

def scanLoop (root : Root) : List (List Text × List Node) → Scan → Scan
  | [],scan => scan
  | (_,[]) :: pathsToIterate,scan => scanLoop root pathsToIterate scan
  | (thisPath,.file _ :: nodes) :: pathsToIterate,scan => scanLoop root ((thisPath,nodes) :: pathsToIterate) scan
  | (thisPath,.directory name inside :: nodes) :: pathsToIterate,scan =>
    if skipped disk root name then scanLoop root ((thisPath,nodes) :: pathsToIterate) scan
    else if isCategory name then scanLoop root ((thisPath,nodes) :: pathsToIterate ++ [(thisPath ++ [name],inside)]) scan
    else scanLoop root ((thisPath,nodes) :: pathsToIterate) (scanResource url disk scan name ⟨root,thisPath ++ [name]⟩)
termination_by pathsToIterate _ => (pathsToIterate.map (fun listing => sizeOf listing.2)).sum
decreasing_by all_goals (simp; try omega)

def ScanResources (root : Root) : ServerResourceList × List Effect :=
  let scan := scanLoop url disk root [([],disk.nodes root)] ⟨list,fun _ => none,[]⟩
  (scan.list,scan.effects)

def scanRoots : ServerResourceList × List Effect :=
  let (list,first) := list.ScanResources url disk .resources
  let (list,second) := list.ScanResources url disk .system_resources
  (list,first ++ second)

def FindByPathComponent (pathComponent : Text) : Finset Text := list.m_resourcesByComponent pathComponent

end ServerResourceList
end Citizen.Resources
