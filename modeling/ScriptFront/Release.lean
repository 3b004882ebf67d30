/-!
# The release

What the front end tells about itself.
-/
namespace ScriptFront.Release

def version : String := "0.1.0"

/-- The terms of use, by their short name. -/
def terms : String := "MIT"

/-- Who looks after it. -/
def maintainer : String := "myinterpreter developers"

end ScriptFront.Release
