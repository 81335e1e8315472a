import TcadWebapp.Devsim.Mesh
import TcadWebapp.Devsim.Spec

/-!
# The electrodes of a specification

`devsim/resolve.py`: the interfaces that a specification names are looked up in the structure
and put together into electrodes.
-/

namespace TcadWebapp.Devsim

open StrParser

/-- `str(list of strings)`. -/
def reprList (py : Python) (names : List String) : String :=
  "[" ++ ", ".intercalate (names.map py.repr) ++ "]"

/-- `available`. -/
def availableOf (detected : List Electrode) : Dict String Electrode :=
  Dict.ofList (detected.map fun found => (found.name, found))

/-- The text of `ElectrodeNotFound` for a key that is not available. -/
def notFoundText (py : Python) (available : Dict String Electrode) (key : String) : String :=
  let names := ", ".intercalate (available.keys.insertionSort (· ≤ ·))
  py.repr key ++ " 계면이 이 구조에 없습니다. 있는 것: " ++ if names = "" then "없음" else names

/-- `available[key]`, or `ElectrodeNotFound`. -/
def findInterface (py : Python) (available : Dict String Electrode) (key : String) :
    Except Exn Electrode :=
  match available.get? key with
  | some found => .ok found
  | none => .error (.valueError (notFoundText py available key))

/-- `restorable` (`resolve.py:27-45`). -/
def restorable (py : Python) (s : Structure Rat) (spec : DeviceSpec) : Except Exn Unit := do
  let detected ← detectInterfaces s spec.gateModel
  let available := availableOf detected
  let _ ← spec.electrodes.mapM fun choice => choice.interfaces.mapM (findInterface py available)
  .ok ()

/-- The electrode that a choice of interfaces stands for. -/
def resolveChoice (py : Python) (s : Structure Rat) (available : Dict String Electrode)
    (choice : ElectrodeChoice) : Except Exn Electrode := do
  let found ← choice.interfaces.mapM (findInterface py available)
  let edges := found.flatMap Electrode.edges
  let materials := (found.flatMap Electrode.materials).dedup
  let origins := (found.map Electrode.origin).dedup
  if edges = [] then
    .error (.valueError (py.repr choice.label ++ " 전극에 붙은 계면에 접촉 변이 없습니다."))
  else
    let extent ← extentOf s edges
    .ok ⟨choice.label, kindOf materials, materials.insertionSort (· ≤ ·), edges, extent,
      if origins = ["metal"] then "metal" else "mixed"⟩

/-- `resolve_electrodes` (`resolve.py:48-115`). -/
def resolveElectrodes (py : Python) (s : Structure Rat) (spec : DeviceSpec) :
    Except Exn (List Electrode) := do
  let detected ← detectInterfaces s spec.gateModel
  let available := availableOf detected
  if available.keys.length ≠ detected.length then
    .error (.valueError ("계면 이름이 겹칩니다: " ++
      reprList py ((detected.map Electrode.name).insertionSort (· ≤ ·)) ++
      ". 구조 인식에 문제가 있습니다."))
  else spec.electrodes.mapM (resolveChoice py s available)

end TcadWebapp.Devsim
