import Aios.Types
import Aios.Lib.Slots
import Aios.Lib.Runs

/-!
The compositor's surface table, `kernel/src/compositor/surface.rs`, with the transition relation of
`shared/src/compositor.rs`, and the requests of `kernel/src/compositor/service.rs` that change it.

The compositor handles one request at a time. The stacking order, the focus and the titles of
surfaces live in other tables, which no operation on surfaces reads.
-/

namespace Aios.Compositor

open Aios.Lib

def maxSurfaces : ℕ := 32
def minWindowWidth : ℕ := 200
def minWindowHeight : ℕ := 100

-- `u64`, handed out in increasing order from 1 on; 0 is no surface
abbrev SurfaceId := ℕ

inductive SurfaceState
  | created | configured | active | suspended | destroyed
  deriving DecidableEq, Repr

namespace SurfaceState

def isTerminal : SurfaceState → Bool
  | destroyed => true
  | _ => false

def canTransitionTo : SurfaceState → SurfaceState → Bool
  | created, configured => true
  | configured, active => true
  | active, active => true
  | active, suspended => true
  | suspended, active => true
  | created, destroyed => true
  | configured, destroyed => true
  | active, destroyed => true
  | suspended, destroyed => true
  | _, _ => false

end SurfaceState

inductive SurfaceLayer
  | background | normal | topLevel | overlay | panel
  deriving DecidableEq, Repr

def SurfaceLayer.ofByte : ℕ → SurfaceLayer
  | 0 => background
  | 1 => normal
  | 2 => topLevel
  | 3 => overlay
  | 4 => panel
  | _ => normal

inductive SurfaceContentType
  | document | terminal | browser | game | settings | systemUI | generic
  deriving DecidableEq, Repr

def SurfaceContentType.fromU8 : ℕ → Option SurfaceContentType
  | 0 => some document
  | 1 => some terminal
  | 2 => some browser
  | 3 => some game
  | 4 => some settings
  | 5 => some systemUI
  | 6 => some generic
  | _ => none

inductive DamageRegion
  | rect (x y width height : ℕ)
  | fullSurface
  | empty
  deriving DecidableEq, Repr

def DamageRegion.hasDamage : DamageRegion → Bool
  | empty => false
  | rect _ _ width height => decide (0 < width) && decide (0 < height)
  | fullSurface => true

inductive SurfaceError
  | tableFull | notFound | notOwner | invalidTransition | invalidSize
  deriving DecidableEq, Repr

structure Surface where
  id : SurfaceId
  state : SurfaceState
  layer : SurfaceLayer
  contentType : SurfaceContentType
  x : ℤ
  y : ℤ
  width : ℕ
  height : ℕ
  shmemId : Option SharedMemoryId
  ownerPid : ProcessId
  channel : ChannelId
  layerSeq : ℕ
  damaged : Bool
  deriving DecidableEq, Repr

/-- `SURFACE_TABLE` and the two counters. -/
structure Sys where
  table : Slots maxSurfaces Surface
  nextSurfaceId : ℕ
  nextLayerSeq : ℕ

namespace Sys

def init : Sys := ⟨Slots.empty, 1, 1⟩

def slotOf (s : Sys) (id : SurfaceId) : Option (Fin maxSurfaces) :=
  (List.finRange maxSurfaces).find? fun i => (s.table i).any fun f => f.id == id

/-- `find_mut`. -/
def find (s : Sys) (id : SurfaceId) : Option Surface := (s.slotOf id).bind s.table

def surfaceCreate (s : Sys) (ownerPid : ProcessId) (channel : ChannelId) (width height : ℕ)
    (contentType : SurfaceContentType) (layer : SurfaceLayer) :
    Except SurfaceError SurfaceId × Sys :=
  if width = 0 ∨ height = 0 then (.error .invalidSize, s)
  else
    let s' := { s with
      nextSurfaceId := (s.nextSurfaceId + 1) % 2 ^ 64
      nextLayerSeq := (s.nextLayerSeq + 1) % 2 ^ 64 }
    match s.table.firstFree with
    | none => (.error .tableFull, s')
    | some i =>
      (.ok s.nextSurfaceId, { s' with table := Function.update s.table i (some
        { id := s.nextSurfaceId
          state := .created
          layer := layer
          contentType := contentType
          x := 0
          y := 0
          width := width
          height := height
          shmemId := none
          ownerPid := ownerPid
          channel := channel
          layerSeq := s.nextLayerSeq
          damaged := true }) })

/-- Find a surface, check its owner and let `f` change it or, with `none`, release its slot. -/
def onSurface (s : Sys) (id : SurfaceId) (callerPid : ProcessId)
    (f : Surface → Except SurfaceError (Option Surface)) : Except SurfaceError Unit × Sys :=
  match s.slotOf id with
  | none => (.error .notFound, s)
  | some i =>
    match s.table i with
    | none => (.error .notFound, s)
    | some surface =>
      if surface.ownerPid ≠ callerPid then (.error .notOwner, s)
      else
        match f surface with
        | .error e => (.error e, s)
        | .ok surface' => (.ok (), { s with table := Function.update s.table i surface' })

/-- What `surface_attach_buffer` does to its surface. -/
def attach (shmemId : SharedMemoryId) (damage : DamageRegion) (surface : Surface) :
    Except SurfaceError (Option Surface) :=
  if surface.state.isTerminal then .error .invalidTransition
  else
    match surface.state with
    | .destroyed => .error .invalidTransition
    | .created | .configured | .active | .suspended =>
      if surface.state.canTransitionTo .active then
        .ok (some { surface with
          shmemId := some shmemId
          state := .active
          damaged := surface.damaged || damage.hasDamage })
      else .error .invalidTransition

def surfaceAttachBuffer (s : Sys) (id : SurfaceId) (shmemId : SharedMemoryId)
    (damage : DamageRegion) (callerPid : ProcessId) : Except SurfaceError Unit × Sys :=
  s.onSurface id callerPid (attach shmemId damage)

def surfaceDestroy (s : Sys) (id : SurfaceId) (callerPid : ProcessId) :
    Except SurfaceError Unit × Sys :=
  s.onSurface id callerPid fun surface =>
    if surface.state.canTransitionTo .destroyed then .ok none else .error .invalidTransition

/-- `surface_resize`; the answer is the size asked for. -/
def surfaceResize (s : Sys) (id : SurfaceId) (width height : ℕ) (callerPid : ProcessId) :
    Except SurfaceError Unit × Sys :=
  if width = 0 ∨ height = 0 then (.error .invalidSize, s)
  else
    s.onSurface id callerPid fun surface =>
      if surface.state.isTerminal then .error .invalidTransition
      else .ok (some { surface with width := width, height := height, damaged := true })

def surfaceSetLayer (s : Sys) (id : SurfaceId) (layer : SurfaceLayer) (callerPid : ProcessId) :
    Except SurfaceError Unit × Sys :=
  match s.onSurface id callerPid fun surface =>
      if surface.state.isTerminal then .error .invalidTransition
      else .ok (some { surface with layer := layer, layerSeq := s.nextLayerSeq, damaged := true })
    with
  | (.ok (), s') => (.ok (), { s' with nextLayerSeq := (s.nextLayerSeq + 1) % 2 ^ 64 })
  | (.error e, s') => (.error e, s')

end Sys

/-! ### Requests -/

/-- `CompositorRequest` without the title. -/
structure CompositorRequest where
  command : ℕ
  surfaceId : SurfaceId
  width : ℕ
  height : ℕ
  layer : ℕ
  contentType : ℕ
  damageTag : ℕ
  shmemId : SharedMemoryId
  damageX : ℕ
  damageY : ℕ
  damageW : ℕ
  damageH : ℕ
  deriving DecidableEq, Repr

namespace CompositorRequest

def zeroed : CompositorRequest := ⟨0, 0, 0, 0, 0, 0, 0, 0, 0, 0, 0, 0⟩

def decodeDamage (req : CompositorRequest) : DamageRegion :=
  match req.damageTag with
  | 0 => .empty
  | 1 => .fullSurface
  | 2 => .rect req.damageX req.damageY req.damageW req.damageH
  | _ => .empty

end CompositorRequest

inductive CompositorCommand
  | createSurface | attachBuffer | destroySurface | resize | setLayer
  deriving DecidableEq, Repr

def CompositorCommand.fromU32 : ℕ → Option CompositorCommand
  | 1 => some createSurface
  | 2 => some attachBuffer
  | 3 => some destroySurface
  | 4 => some resize
  | 5 => some setLayer
  | _ => none

/-- The replies of these requests; `zeroed` stands for every failure. -/
inductive CompositorEvent
  | zeroed
  | configure (surface : SurfaceId) (width height scaleX100 : ℕ)
  | closeRequested (surface : SurfaceId)
  | bufferReleased (surface : SurfaceId) (shmemId : SharedMemoryId)
  deriving DecidableEq, Repr

namespace Sys

def clampWindowSize (width height : ℕ) : ℕ × ℕ :=
  (max width minWindowWidth, max height minWindowHeight)

def handleCreateSurface (s : Sys) (req : CompositorRequest) (ownerPid : ProcessId)
    (serviceChannel : ChannelId) : CompositorEvent × Sys :=
  match s.surfaceCreate ownerPid serviceChannel req.width req.height
      ((SurfaceContentType.fromU8 req.contentType).getD .generic) (SurfaceLayer.ofByte req.layer) with
  | (.ok id, s') => (.configure id req.width req.height 100, s')
  | (.error _, s') => (.zeroed, s')

def reply (event : CompositorEvent) : Except SurfaceError Unit × Sys → CompositorEvent × Sys
  | (.ok (), s) => (event, s)
  | (.error _, s) => (.zeroed, s)

def handleAttachBuffer (s : Sys) (req : CompositorRequest) (ownerPid : ProcessId) :
    CompositorEvent × Sys :=
  reply (.bufferReleased req.surfaceId req.shmemId)
    (s.surfaceAttachBuffer req.surfaceId req.shmemId req.decodeDamage ownerPid)

def handleDestroySurface (s : Sys) (req : CompositorRequest) (ownerPid : ProcessId) :
    CompositorEvent × Sys :=
  reply (.closeRequested req.surfaceId) (s.surfaceDestroy req.surfaceId ownerPid)

def handleResize (s : Sys) (req : CompositorRequest) (ownerPid : ProcessId) :
    CompositorEvent × Sys :=
  let size := clampWindowSize req.width req.height
  reply (.configure req.surfaceId size.1 size.2 100)
    (s.surfaceResize req.surfaceId size.1 size.2 ownerPid)

def handleSetLayer (s : Sys) (req : CompositorRequest) (ownerPid : ProcessId) :
    CompositorEvent × Sys :=
  reply (.configure req.surfaceId 0 0 100)
    (s.surfaceSetLayer req.surfaceId (SurfaceLayer.ofByte req.layer) ownerPid)

/-- `process_request`, once the payload is decoded and the sender's process is known. -/
def processRequest (s : Sys) (req : CompositorRequest) (ownerPid : ProcessId)
    (serviceChannel : ChannelId) : CompositorEvent × Sys :=
  match CompositorCommand.fromU32 req.command with
  | some .createSurface => s.handleCreateSurface req ownerPid serviceChannel
  | some .attachBuffer => s.handleAttachBuffer req ownerPid
  | some .destroySurface => s.handleDestroySurface req ownerPid
  | some .resize => s.handleResize req ownerPid
  | some .setLayer => s.handleSetLayer req ownerPid
  | none => (.zeroed, s)

end Sys

end Aios.Compositor
