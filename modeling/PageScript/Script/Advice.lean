/-!
# Advice on a failing script

The mock debugger looks at nothing: it puts the error message into a fixed suggestion after the
script.
-/

namespace PageScript.Script

structure Advice where
  suggestion : String
  explanation : String

namespace Advice

def onError (script error : String) : Advice where
  suggestion := script ++ "\n\n// AI Suggestion: The error \"" ++ error ++
    "\" might be due to an unhandled null value. Consider adding checks before accessing " ++
    "properties. (Mocked Response)"
  explanation := "MockAI suggests adding safe wrappers and validating inputs for the error: " ++
    error

def markdown (a : Advice) : String :=
  "### Mock AI Debugger Analysis\n**Explanation:** " ++ a.explanation ++
    "\n\n---\n\n### Suggested Code\n```javascript\n" ++ a.suggestion ++ "\n```\n"

end Advice

end PageScript.Script
