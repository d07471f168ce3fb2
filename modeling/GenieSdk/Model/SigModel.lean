import GenieSdk.Lib.Runs
import GenieSdk.Lib.SharedFlags

/-!
# SIG models

The OnOff, Lightness, CTL and Scene servers of the elements, with transitions: the analysis of Set
messages, the binding of the quantities, the events of `sig_model_event.c` and the callbacks of the
two timers of an element. Every handler of an event is a step of its own, so that messages and
timers may come between any two; `todo` holds what is still to be handled. The time is given with
each action. `log` records the attributes that are flagged and reported.
-/

set_option autoImplicit false

namespace GenieSdk.Model

open GenieSdk.Lib

/-! ## The state of an element -/

/-- `sig_model_indicate_flag_e` -/
inductive SigAttr
  | genOnoff
  | genLightness
  | genCtl
  | genScene
  deriving DecidableEq, Repr

/-- A quantity with its two values, `TYPE_PRESENT` and `TYPE_TARGET`. -/
structure SigValue (α : Type) where
  present : α
  target : α
  deriving DecidableEq

/-- `sig_model_element_state_t`; a timer is `true` while it runs. -/
structure SigElem where
  onoff : SigValue UInt8
  lightness : SigValue UInt16
  colorTemperature : SigValue UInt16
  scene : SigValue UInt16
  delay : UInt8
  delayTimer : Bool
  trans : UInt8
  transStartTime : UInt32
  transEndTime : UInt32
  transTimer : Bool
  lastLightness : UInt16
  lastColorTemperature : UInt16
  deriving DecidableEq

/-- The part of `E_MESH_ERROR_TYPE` that the analysis returns. -/
inductive MeshError
  | tidRepeat
  | analyzeSizeError
  | analyzeArgsError
  | setTranstionError
  deriving DecidableEq

/-- `LIGHTNESS_DEFAULT` -/
def lightnessDefault : UInt16 := 0xE666

/-- `LIGHTNESS_MAX_VALUE` -/
def lightnessMaxValue : ℕ := 0xFFFF

/-- `COLOR_TEMPERATURE_MIN` -/
def colorTemperatureMin : ℕ := 800

/-- `COLOR_TEMPERATURE_MAX` -/
def colorTemperatureMax : ℕ := 20000

/-- `COLOR_TEMPERATURE_DEFAULT` -/
def colorTemperatureDefault : UInt16 := 20000

/-- `SIG_MODEL_TRANSITION_INTERVAL` -/
def sigModelTransitionInterval : UInt32 := 20

/-- `TRANS_TIMES` -/
def transTimes (i : ℕ) : UInt32 := [100, 1000, 10 * 1000, 10 * 60 * 1000].getD i 0

/-- SRCLINE: sig_model_transition.c:220-230 -/
def sigModelTransitionGetTransitionTime (byte : UInt8) : UInt32 :=
  if byte &&& 0x3F = 0x3F then 0x3F
  else (byte &&& 0x3F).toUInt32 * transTimes (byte >>> 6).toNat

/-! ## The binding -/

/-- SRCLINE: sig_model_lightness_srv.c:256-285 -/
def sigModelLightnessUpdateByOnoff (elem : SigElem) : SigElem :=
  if elem.onoff.present = 0 ∧ elem.onoff.target = 1 then
    if elem.lastLightness ≠ 0 then
      { elem with lightness := { elem.lightness with target := elem.lastLightness } }
    else { elem with lightness := { elem.lightness with target := lightnessDefault } }
  else if elem.onoff.present = 1 ∧ elem.onoff.target = 0 then
    { elem with lightness := { elem.lightness with target := 0 } }
  else elem

/-- SRCLINE: sig_model_light_ctl_srv.c:272-302 -/
def sigModelLightCtlUpdateByOnoff (elem : SigElem) : SigElem × List SigAttr :=
  if elem.onoff.present = 0 ∧ elem.onoff.target = 1 then
    if elem.colorTemperature.present ≠ elem.colorTemperature.target then
      let target :=
        if elem.lastColorTemperature ≠ 0 then elem.lastColorTemperature
        else colorTemperatureDefault
      ({ elem with colorTemperature := { elem.colorTemperature with target := target } }, [.genCtl])
    else (elem, [])
  else (elem, [])

/-- SRCLINE: sig_model_bind_ops.c:9-20 -/
def sigModelGenericOnoffBindOps (elem : SigElem) : SigElem × List SigAttr :=
  sigModelLightCtlUpdateByOnoff (sigModelLightnessUpdateByOnoff elem)

/-- `sig_model_onoff_update_by_lightness` for `TYPE_TARGET`, as `_lightness_analyze` calls it.
SRCLINE: sig_model_onoff_srv.c:268-284 -/
def sigModelOnoffUpdateByLightness (elem : SigElem) : SigElem :=
  if elem.lightness.present = 0 ∧ elem.lightness.target ≠ 0 then
    { elem with onoff := { elem.onoff with target := 1 } }
  else if elem.lightness.present ≠ 0 ∧ elem.lightness.target = 0 then
    { elem with onoff := { elem.onoff with target := 0 } }
  else elem

/-- SRCLINE: sig_model_onoff_srv.c:253-264 -/
def sigModelOnoffUpdateByColorTemperature (elem : SigElem) : SigElem × List SigAttr :=
  if elem.onoff.target = 0 then
    sigModelGenericOnoffBindOps { elem with onoff := { elem.onoff with target := 1 } }
  else (elem, [])

/-! ## Set messages -/

/-- `trans` and `delay` of an accepted message. SRCLINE: sig_model_onoff_srv.c:127-135 -/
def SigElem.setTransition (elem : SigElem) (trans delay : UInt8) (now : UInt32) : SigElem :=
  let elem := { elem with trans := trans, delay := delay }
  if trans ≠ 0 then
    let start := now + delay.toUInt32 * 5
    { elem with
      transStartTime := start
      transEndTime := start + sigModelTransitionGetTransitionTime trans }
  else elem

/-- `net_buf_simple_pull_le16` -/
def le16 (lo hi : UInt8) : UInt16 := lo.toUInt16 ||| (hi.toUInt16 <<< 8)

/-- The checks every message with a transition goes through; `fresh` is
`genie_transport_check_tid() == MESH_SUCCESS`. -/
def checkTrans (trans : UInt8) (argsOk fresh : Bool) : Except MeshError Unit :=
  if trans &&& 0x3F = 0x3F then .error .setTranstionError
  else if argsOk = false then .error .analyzeArgsError
  else if fresh = false then .error .tidRepeat
  else .ok ()

/-- `_gen_onoff_analyze` after the message has been accepted.
SRCLINE: sig_model_onoff_srv.c:125-142 -/
def genOnoffAccept (elem : SigElem) (onoff trans delay : UInt8) (now : UInt32) :
    SigElem × List SigAttr :=
  let elem := { elem with onoff := { elem.onoff with target := onoff } }
  let elem := elem.setTransition trans delay now
  let r := sigModelGenericOnoffBindOps elem
  (r.1, .genOnoff :: r.2)

/-- Here the value is checked before the transition. SRCLINE: sig_model_onoff_srv.c:64-145 -/
def genOnoffAnalyze (elem : SigElem) (buf : List UInt8) (fresh : Bool) (now : UInt32) :
    Except MeshError (SigElem × List SigAttr) :=
  let analyze (onoff trans delay : UInt8) : Except MeshError (SigElem × List SigAttr) :=
    if onoff >>> 1 ≠ 0 then .error .analyzeArgsError
    else
      match checkTrans trans true fresh with
      | .error e => .error e
      | .ok () => .ok (genOnoffAccept elem onoff trans delay now)
  match buf with
  | [onoff, _] => analyze onoff 0 0
  | [onoff, _, tr, delay] => analyze onoff tr delay
  | _ => .error .analyzeSizeError

/-- `_lightness_analyze` after the message has been accepted.
SRCLINE: sig_model_lightness_srv.c:111-133 -/
def lightnessAccept (elem : SigElem) (lightness : UInt16) (trans delay : UInt8) (now : UInt32) :
    SigElem × List SigAttr :=
  let elem := { elem with lightness := { elem.lightness with target := lightness } }
  let elem := if lightness ≠ 0 then { elem with lastLightness := lightness } else elem
  let elem := elem.setTransition trans delay now
  if elem.lightness.present ≠ elem.lightness.target then
    (sigModelOnoffUpdateByLightness elem, [.genLightness])
  else (elem, [])

/-- SRCLINE: sig_model_lightness_srv.c:61-136 -/
def lightnessAnalyze (elem : SigElem) (buf : List UInt8) (fresh : Bool) (now : UInt32) :
    Except MeshError (SigElem × List SigAttr) :=
  let analyze (lightness : UInt16) (trans delay : UInt8) :
      Except MeshError (SigElem × List SigAttr) :=
    match checkTrans trans true fresh with
    | .error e => .error e
    | .ok () => .ok (lightnessAccept elem lightness trans delay now)
  match buf with
  | [lo, hi, _] => analyze (le16 lo hi) 0 0
  | [lo, hi, _, tr, delay] => analyze (le16 lo hi) tr delay
  | _ => .error .analyzeSizeError

/-- `_ctl_analyze` after the message has been accepted.
SRCLINE: sig_model_light_ctl_srv.c:127-150 -/
def ctlAccept (elem : SigElem) (colorTemperature : UInt16) (trans delay : UInt8) (now : UInt32) :
    SigElem × List SigAttr :=
  let elem := { elem with
    colorTemperature := { elem.colorTemperature with target := colorTemperature }
    lastColorTemperature := colorTemperature }
  let elem := elem.setTransition trans delay now
  if elem.colorTemperature.present ≠ elem.colorTemperature.target then
    let r := sigModelOnoffUpdateByColorTemperature elem
    (r.1, .genCtl :: r.2)
  else (elem, [])

/-- SRCLINE: sig_model_light_ctl_srv.c:62-153 -/
def ctlAnalyze (elem : SigElem) (buf : List UInt8) (fresh : Bool) (now : UInt32) :
    Except MeshError (SigElem × List SigAttr) :=
  let analyze (colorTemperature : UInt16) (trans delay : UInt8) :
      Except MeshError (SigElem × List SigAttr) :=
    let argsOk : Bool :=
      colorTemperatureMin ≤ colorTemperature.toNat ∧ colorTemperature.toNat ≤ colorTemperatureMax
    match checkTrans trans argsOk fresh with
    | .error e => .error e
    | .ok () => .ok (ctlAccept elem colorTemperature trans delay now)
  match buf with
  | [_, _, lo, hi, _, _, _] => analyze (le16 lo hi) 0 0
  | [_, _, lo, hi, _, _, _, tr, delay] => analyze (le16 lo hi) tr delay
  | _ => .error .analyzeSizeError

/-- The scene is compared as a signed number: one from 0x8000 on always differs.
SRCLINE: sig_model_scene_srv.c:40-82 -/
def sceneAnalyze (elem : SigElem) (buf : List UInt8) (fresh : Bool) :
    Except MeshError (SigElem × List SigAttr) :=
  let analyze (scene : UInt16) : Except MeshError (SigElem × List SigAttr) :=
    if fresh = false then .error .tidRepeat
    else if elem.scene.target ≠ scene ∨ 0x8000 ≤ scene then
      .ok ({ elem with scene := { elem.scene with target := scene } }, [.genScene])
    else .ok (elem, [])
  match buf with
  | [lo, hi, _] => analyze (le16 lo hi)
  | [lo, hi, _, _, _] => analyze (le16 lo hi)
  | _ => .error .analyzeSizeError

/-! ## Transitions -/

/-- SRCLINE: sig_model_transition.c:8-12 -/
def SigElem.transitionTimerStop (elem : SigElem) : SigElem :=
  { elem with delayTimer := false, transTimer := false }

/-- SRCLINE: sig_model_transition.c:14-19 -/
def SigElem.transitionStateReset (elem : SigElem) : SigElem :=
  { elem with trans := 0, transStartTime := 0, transEndTime := 0 }

/-- `DELTA_ACTUAL_MIN` -/
def deltaActualMin : ℕ := 655

/-- `DELTA_TEMP_MIN` -/
def deltaTempMin : ℕ := 192

/-- The attribute is flagged if the value has arrived. -/
def arrived {α : Type} [DecidableEq α] (v : SigValue α) (attr : SigAttr) : List SigAttr :=
  if v.present = v.target then [attr] else []

/-- One cycle of the lightness. SRCLINE: sig_model_transition.c:46-89 -/
def lightnessCycle (v : SigValue UInt16) (step : ℕ) : SigValue UInt16 × List SigAttr :=
  let present := v.present.toNat
  let target := v.target.toNat
  if present < target then
    let delta := max ((target - present) / step) deltaActualMin
    if lightnessMaxValue - present < delta ∨ target - present < delta then
      ({ v with present := v.target }, [.genLightness])
    else
      let v := { v with present := UInt16.ofNat (present + delta) }
      (v, arrived v .genLightness)
  else
    let delta := max ((present - target) / step) deltaActualMin
    if present < delta ∨ present - delta < target then
      ({ v with present := v.target }, [.genLightness])
    else
      let v := { v with present := UInt16.ofNat (present - delta) }
      (v, arrived v .genLightness)

/-- One cycle of the colour temperature; upwards it goes on by what it has reached.
SRCLINE: sig_model_transition.c:91-136 -/
def colorTemperatureCycle (v : SigValue UInt16) (step : ℕ) : SigValue UInt16 × List SigAttr :=
  let present := v.present.toNat
  let target := v.target.toNat
  if present < target then
    let delta := max ((target - present) / step) deltaTempMin
    let r : SigValue UInt16 × List SigAttr :=
      if colorTemperatureMax - present < delta ∨ target - present < delta then
        ({ v with present := v.target }, [.genCtl])
      else
        let v := { v with present := UInt16.ofNat (present + delta) }
        (v, arrived v .genCtl)
    let next := UInt16.ofNat delta + r.1.present
    ({ r.1 with present := if v.target < next then v.target else next }, r.2)
  else
    let delta := max ((present - target) / step) deltaTempMin
    if present < delta + colorTemperatureMin ∨ present - delta < target then
      ({ v with present := v.target }, [.genCtl])
    else
      let v := { v with present := UInt16.ofNat (present - delta) }
      (v, arrived v .genCtl)

/-- A quantity takes its target. -/
def settle {α : Type} [DecidableEq α] (v : SigValue α) (attr : SigAttr) :
    SigValue α × List SigAttr :=
  if v.present ≠ v.target then ({ v with present := v.target }, [attr]) else (v, [])

/-- The part of `sig_model_transition_update` before its time is over. `step` has 16 bits; where
it is 0 the quotients, which C leaves open, are 0. SRCLINE: sig_model_transition.c:31-138 -/
def transitionCycle (elem : SigElem) (now : UInt32) : SigElem × List SigAttr × Bool :=
  if now ≤ elem.transEndTime - sigModelTransitionInterval then
    let step := ((elem.transEndTime - now) / sigModelTransitionInterval).toNat % 2 ^ 16
    let onoff := settle elem.onoff .genOnoff
    let moving := elem.lightness.present ≠ elem.lightness.target
    let lightness := if moving then lightnessCycle elem.lightness step else (elem.lightness, [])
    let turning := elem.colorTemperature.present ≠ elem.colorTemperature.target
    let color :=
      if turning then colorTemperatureCycle elem.colorTemperature step
      else (elem.colorTemperature, [])
    ({ elem with onoff := onoff.1, lightness := lightness.1, colorTemperature := color.1 },
      onoff.2 ++ lightness.2 ++ color.2, moving ∨ turning)
  else (elem, [], false)

/-- The part of `sig_model_transition_update` that ends the transition.
SRCLINE: sig_model_transition.c:155-185 -/
def transitionFinish (elem : SigElem) : SigElem × List SigAttr :=
  let target := if elem.lightness.target = 0 then 0 else elem.onoff.target
  let onoff := settle { elem.onoff with target := target } .genOnoff
  let lightness := settle elem.lightness .genLightness
  let color := settle elem.colorTemperature .genCtl
  ({ elem with
      onoff := onoff.1, lightness := lightness.1, colorTemperature := color.1, trans := 0 },
    onoff.2 ++ lightness.2 ++ color.2)

/-- Present equals target for the three quantities. -/
def SigElem.settled (elem : SigElem) : Bool :=
  elem.onoff.present = elem.onoff.target ∧ elem.lightness.present = elem.lightness.target ∧
    elem.colorTemperature.present = elem.colorTemperature.target

/-- SRCLINE: sig_model_transition.c:24-189 -/
def sigModelTransitionUpdate (elem : SigElem) (now : UInt32) : Bool × SigElem × List SigAttr :=
  let r := transitionCycle elem now
  let cycle := r.2.2 && !r.1.settled
  if cycle then (cycle, r.1, r.2.1)
  else
    let f := transitionFinish r.1
    (cycle, f.1, r.2.1 ++ f.2)

/-! ## Events -/

/-- `sig_model_event_e`, as far as it concerns the elements -/
inductive SigModelEvent
  | analyzeMsg
  | actionDone
  | indicate
  | delayStart
  | delayEnd
  | transStart
  | transCycle
  | transEnd
  deriving DecidableEq

/-- An event, or what `_mesh_trans_timer_cycle` does after its event. -/
inductive SigTodo
  | event (e : SigModelEvent)
  | cycleRest
  deriving DecidableEq

/-- What a handler does to its element, what it flags and what comes next. -/
structure SigResult where
  elem : SigElem
  flags : List SigAttr
  next : Option SigTodo

/-- SRCLINE: sig_model_event.c:13-22 -/
def sigModelEventHandleDelayStart (elem : SigElem) : SigResult :=
  { elem := { elem.transitionTimerStop with delayTimer := true }, flags := [], next := none }

/-- SRCLINE: sig_model_event.c:24-46 -/
def sigModelEventHandleDelayEnd (elem : SigElem) (now : UInt32) : SigResult :=
  let elem := { elem with delay := 0 }
  if elem.trans = 0 ∨ elem.transEndTime ≤ now then
    { elem := elem.transitionStateReset, flags := [], next := some (.event .actionDone) }
  else { elem := elem, flags := [], next := some (.event .transStart) }

/-- SRCLINE: sig_model_event.c:49-68 -/
def sigModelEventHandleTransStart (elem : SigElem) (now : UInt32) : SigResult :=
  let elem := elem.transitionTimerStop
  if elem.transEndTime - sigModelTransitionInterval ≤ now then
    { elem := elem, flags := [], next := some (.event .transEnd) }
  else { elem := { elem with transTimer := true }, flags := [], next := none }

/-- SRCLINE: sig_model_event.c:70-78 -/
def sigModelEventHandleTransCycle (elem : SigElem) (now : UInt32) : SigResult :=
  let r := sigModelTransitionUpdate elem now
  let elem := if r.1 then r.2.1 else { r.2.1 with trans := 0 }
  { elem := elem, flags := r.2.2, next := some .cycleRest }

/-- SRCLINE: sig_model_event.c:80-86 -/
def sigModelEventHandleTransEnd (elem : SigElem) : SigResult :=
  { elem := elem.transitionStateReset, flags := [], next := some (.event .actionDone) }

/-- SRCLINE: sig_model_event.c:89-105 -/
def sigModelEventHandleAnalyzeMsg (elem : SigElem) : SigResult :=
  let next :=
    if elem.delay ≠ 0 then SigModelEvent.delayStart
    else if elem.trans ≠ 0 then .transStart
    else .actionDone
  { elem := elem, flags := [], next := some (.event next) }

/-- `ready` says that the device is provisioned and has booted normally.
SRCLINE: sig_model_event.c:107-159 -/
def sigModelHandleActionDone (elem : SigElem) (ready : Bool) : SigResult :=
  let onoff := settle elem.onoff .genOnoff
  let lightness := settle elem.lightness .genLightness
  let color := settle elem.colorTemperature .genCtl
  let scene := settle elem.scene .genScene
  { elem := { elem with
      onoff := onoff.1, lightness := lightness.1, colorTemperature := color.1, scene := scene.1 }
    flags := onoff.2 ++ lightness.2 ++ color.2 ++ scene.2
    next := if ready then some (.event .indicate) else none }

/-- What `_mesh_trans_timer_cycle` does after its event. SRCLINE: light.c:92-100 -/
def meshTransTimerCycleRest (elem : SigElem) : SigResult :=
  if elem.trans = 0 then { elem := elem, flags := [], next := some (.event .transEnd) }
  else { elem := { elem with transTimer := true }, flags := [], next := none }

/-- What is to be handled apart from `SIG_MODEL_EVT_INDICATE`. -/
def sigModelHandle (elem : SigElem) (now : UInt32) (ready : Bool) : SigTodo → SigResult
  | .event .analyzeMsg => sigModelEventHandleAnalyzeMsg elem
  | .event .actionDone => sigModelHandleActionDone elem ready
  | .event .indicate => { elem := elem, flags := [], next := none }
  | .event .delayStart => sigModelEventHandleDelayStart elem
  | .event .delayEnd => sigModelEventHandleDelayEnd elem now
  | .event .transStart => sigModelEventHandleTransStart elem now
  | .event .transCycle => sigModelEventHandleTransCycle elem now
  | .event .transEnd => sigModelEventHandleTransEnd elem
  | .cycleRest => meshTransTimerCycleRest elem

/-! ## The device -/

/-- `indicateFlags` is the word `indicate_flags` of `sig_model_event.c`. -/
structure SigSys where
  elems : ℕ → SigElem
  indicateFlags : SigAttr → Bool
  todo : List (ℕ × SigTodo)
  log : List (FlagEvent ℕ SigAttr)

def sigInit (elems : ℕ → SigElem) : SigSys where
  elems := elems
  indicateFlags := fun _ => false
  todo := []
  log := []

namespace SigSys

def setElem (s : SigSys) (i : ℕ) (elem : SigElem) : SigSys :=
  { s with elems := Function.update s.elems i elem }

/-- `sig_model_event_set_indicate`; `i` is the element it is called for, which it is not told.
SRCLINE: sig_model_event.c:220-223 -/
def setIndicate (s : SigSys) (i : ℕ) (attr : SigAttr) : SigSys :=
  { s with
    indicateFlags := Function.update s.indicateFlags attr true
    log := s.log ++ [.flagged i attr] }

def setIndicates (s : SigSys) (i : ℕ) (attrs : List SigAttr) : SigSys :=
  attrs.foldl (fun s attr => s.setIndicate i attr) s

end SigSys

/-- The attributes `sig_model_handle_indicate` looks at, in its order. -/
def sigAttrs : List SigAttr := [.genOnoff, .genLightness, .genCtl, .genScene]

/-- SRCLINE: sig_model_event.c:161-218 -/
def sigModelHandleIndicate (s : SigSys) (i : ℕ) : SigSys :=
  { s with
    indicateFlags := fun _ => false
    log := s.log ++ [.reported i (sigAttrs.filter s.indicateFlags)] }

/-- A Set message arrives at an element, a timer fires, or the `k`-th thing to do is done. -/
inductive SigAct
  | onoffSet (i : ℕ) (buf : List UInt8) (fresh : Bool) (now : UInt32)
  | lightnessSet (i : ℕ) (buf : List UInt8) (fresh : Bool) (now : UInt32)
  | ctlSet (i : ℕ) (buf : List UInt8) (fresh : Bool) (now : UInt32)
  | sceneSet (i : ℕ) (buf : List UInt8) (fresh : Bool)
  | delayTimer (i : ℕ)
  | transTimer (i : ℕ)
  | handle (k : ℕ) (now : UInt32) (ready : Bool)
  deriving DecidableEq

/-- An accepted message is followed by its event; a message that is refused changes nothing.
SRCLINE: sig_model_onoff_srv.c:184-244 -/
def sigModelSet (s : SigSys) (i : ℕ) : Except MeshError (SigElem × List SigAttr) → SigSys
  | .error _ => s
  | .ok r =>
    let s := (s.setElem i r.1).setIndicates i r.2
    { s with todo := s.todo ++ [(i, .event .analyzeMsg)] }

/-- Do the `k`-th thing to do and put what comes next in its place. -/
def sigModelDo (s : SigSys) (k i : ℕ) (todo : SigTodo) (now : UInt32) (ready : Bool) : SigSys :=
  match todo with
  | .event .indicate => sigModelHandleIndicate { s with todo := s.todo.eraseIdx k } i
  | todo =>
    let r := sigModelHandle (s.elems i) now ready todo
    let s := (s.setElem i r.elem).setIndicates i r.flags
    match r.next with
    | none => { s with todo := s.todo.eraseIdx k }
    | some next => { s with todo := s.todo.set k (i, next) }

/-- The callbacks of the timers are `_mesh_delay_timer_cb` and `_mesh_trans_timer_cycle`.
SRCLINE: light.c:72-100 -/
def sigStep (s : SigSys) : SigAct → Option SigSys
  | .onoffSet i buf fresh now => some (sigModelSet s i (genOnoffAnalyze (s.elems i) buf fresh now))
  | .lightnessSet i buf fresh now =>
    some (sigModelSet s i (lightnessAnalyze (s.elems i) buf fresh now))
  | .ctlSet i buf fresh now => some (sigModelSet s i (ctlAnalyze (s.elems i) buf fresh now))
  | .sceneSet i buf fresh => some (sigModelSet s i (sceneAnalyze (s.elems i) buf fresh))
  | .delayTimer i =>
    if (s.elems i).delayTimer then
      let s := s.setElem i (s.elems i).transitionTimerStop
      some { s with todo := s.todo ++ [(i, .event .delayEnd)] }
    else none
  | .transTimer i =>
    if (s.elems i).transTimer then
      let s := s.setElem i (s.elems i).transitionTimerStop
      some { s with todo := s.todo ++ [(i, .event .transCycle)] }
    else none
  | .handle k now ready =>
    match s.todo[k]? with
    | none => none
    | some (i, todo) => some (sigModelDo s k i todo now ready)

end GenieSdk.Model
