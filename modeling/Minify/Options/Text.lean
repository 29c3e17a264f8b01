import Minify.Options

/-!
Options as JSON text.
-/

namespace Minify.Options

open Json (Codec)

def write (c : Codec) (o : Options) : String := c.print o.toJson

def ofText? (c : Codec) (s : String) : Option Options := (c.parse? s).bind (read? c)

def ofString? (s : String) : Option Options := ofText? (Json.codec 2) s

end Minify.Options
