/-!
The version of the library, as the command line shows it.
-/
namespace RuleLang

def version : String := "0.1.0"

end RuleLang
