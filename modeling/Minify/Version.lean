/-!
The name and the version of the program.
-/

namespace Minify

def programName : String := "packr"

def version : String := "0.3.0"

def versionLine : String := programName ++ " " ++ version

end Minify
