import Etude.Base.MultiSz

/-!
# Model — the list of volumes that `volume.c` prints

One round of the loop over the volumes, with the buffers and the count that the rounds share.
What the system calls return is a parameter; `none` is a read or a write outside a buffer.
-/

namespace Etude
namespace Volumes

open Base.MultiSz

/-- `ARRAYSIZE(PathName)` and `ARRAYSIZE(DriverPathName)` -/
def pathSize : ℕ := 260 + 1

/-! ## The system -/

structure Space where
  available : UInt64
  total : UInt64
  free : UInt64
  deriving DecidableEq, Repr

structure Windows where
  /-- From the volume name, the buffer and the length passed: whether the call succeeds, and the
  buffer and `CharCount` after it. -/
  getVolumePathNamesForVolumeName : List WChar → List WChar → ℕ → Bool × List WChar × ℕ
  queryDosDevice : List WChar → Option (List WChar)
  getDiskFreeSpaceEx : List WChar → Option Space

/-! ## One volume -/

/-- What is printed for a path name. -/
structure PathLine where
  driverPathName : List WChar
  space : Option Space
  deriving DecidableEq, Repr

/-- What is printed for a volume, and the length that was passed for its path names. -/
structure Listing where
  volumeName : List WChar
  deviceName : List WChar
  paths : List PathLine
  passed : ℕ
  deriving DecidableEq, Repr

/-- The variables that a round leaves to the next one. -/
structure State where
  deviceName : List WChar
  pathName : List WChar
  charCount : ℕ
  deriving DecidableEq, Repr

/-- `if (':' != NameIdx[1])` a colon is put behind the name. -/
def driverPathName (nameIdx : List WChar) : List WChar :=
  if nameIdx[1]? ≠ some 58 then nameIdx ++ [58] else nameIdx

def harddiskVolume : List WChar :=
  wide "\\Device\\HarddiskVolume"

/-- The body of the loop over the path names. -/
def pathLine (win : Windows) (deviceName nameIdx : List WChar) : Option PathLine :=
  -- The name and a zero behind it go into `DriverPathName`.
  if (driverPathName nameIdx).length + 1 ≤ pathSize then
    some
      { driverPathName := driverPathName nameIdx
        space :=
          if harddiskVolume.isPrefixOf deviceName then
            win.getDiskFreeSpaceEx (driverPathName nameIdx)
          else none }
  else none

/-- The body of the loop over the volumes. -/
def listVolume (win : Windows) (s : State) (volumeName : List WChar) :
    Option (State × Listing) := do
  -- What the call returns is not looked at.
  let (_, pathName, charCount) :=
    win.getVolumePathNamesForVolumeName volumeName s.pathName s.charCount
  -- Without the backslash at the end, and from the fifth character on.
  let deviceName := (win.queryDosDevice (volumeName.dropLast.drop 4)).getD s.deviceName
  let names ← walk pathName
  let paths ← names.mapM (pathLine win deviceName)
  some
    ({ deviceName := deviceName
       pathName := pathName
       charCount := charCount },
      { volumeName := volumeName
        deviceName := deviceName
        paths := paths
        passed := s.charCount })

def start : State :=
  { deviceName := []
    pathName := List.replicate pathSize 0
    charCount := pathSize }

end Volumes
end Etude
