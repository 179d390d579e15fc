/-
What the program calls itself.
-/
import DocAtlas.Text.Basic

namespace DocAtlas.Product

def name : Text := "quickgen"

def version : Text := "0.1.0-dev"

end DocAtlas.Product
