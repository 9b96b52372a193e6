import PageScript.Json.Value

/-!
# Hooks

Whoever presents a run supplies an observer, which is told of each effect as it is carried out.
An observer has a state of its own and may refuse a call, giving a reason; what a refusal means is
up to the runner.
-/

namespace PageScript

open Json

inductive HookCall where
  | log (message : String)
  | watermark (page : UInt32) (text : String)
  | highlight (text : String)
  | lockPages (pages : List UInt32) (priceCents : Option UInt64)
  | mintNft (metadata : Members)

namespace HookCall

/-- The name of the hook that is called. -/
def hook : HookCall → String
  | .log _ => "log"
  | .watermark _ _ => "watermark"
  | .highlight _ => "highlight"
  | .lockPages _ _ => "lockPages"
  | .mintNft _ => "mintNFT"

def isLog : HookCall → Bool
  | .log _ => true
  | _ => false

end HookCall

structure Observer (σ : Type) where
  respond : HookCall → StateM σ (Except String Unit)

namespace Observer

/-- Takes note of nothing and refuses nothing. -/
def silent : Observer Unit where
  respond _ := return .ok ()

/-- Refuses every call of the hooks named. -/
def refusing (hooks : List String) : Observer Unit where
  respond c := return if c.hook ∈ hooks then .error (c.hook ++ " refused") else .ok ()

end Observer

end PageScript
