import QAuth.SignIn.RoundLimitRuns

/-!
# When a refused credential round may come again

A refusal answers how long its limit still holds. The block of an end-user IP and its hard limit
hold exactly that long; a delay holds that long at most, as it refuses only while its soft threshold
does, and a threshold lets go as soon as entries leave the window.
-/

namespace QAuth.SignIn

open RoundStore

variable {p : RoundLimitPolicy} {keys : RoundKeys} {now t : ℕ} {store after : RoundStore}
  {identifier : Option String} {reservation ip : String}

/-- The limit of a refusal. -/
def ScriptReply.limit : ScriptReply → Option RoundLimitName
  | .admitted _ => none
  | .refused limit .. => some limit

section Limits

end Limits

section Later

end Later

/-! ### Retries -/

namespace RoundRun

variable {events : List RoundEvent}

end RoundRun

end QAuth.SignIn
