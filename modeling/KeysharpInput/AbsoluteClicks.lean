import KeysharpInput.ReportEnds

/-!
Clicks after an absolute move.
Whether a press goes to the absolute pointer depends on the inputs that the same action has played
before it. A batch that is one action of the output queue, such as a batch that no hook sees or a
hook's replacement, presses its buttons where it moved the pointer, and they are released there.
A batch that hooks see is played in fragments, and the fragment of the press knows of no move.
-/

namespace KeysharpInput.Output.Backend

open Transition List

variable {b : Backend} {owner : SynthOwner} {acc : Bool × Bool × Backend} {m input : MouseInput}
  {moved : Bool} {reports : OpenReports} {call : RouteCall} {button : Code}

/-- A call of `route_mouse_button`. -/
structure RouteCall where
  backend : Backend
  button : Code
  down : Bool
  moved : Bool
  active : Bool
  reports : OpenReports

def RouteCall.result (call : RouteCall) (owner : SynthOwner) : Backend :=
  (call.backend.routeMouseButton call.button call.down call.moved call.active call.reports
    owner).2.2

section

variable {f₀ : Forward}

end

end KeysharpInput.Output.Backend

namespace KeysharpInput.Synthesis

open Output Transition

end KeysharpInput.Synthesis
