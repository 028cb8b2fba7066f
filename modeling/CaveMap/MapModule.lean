namespace CaveMap

inductive ModuleCategory
  | drawing
  | typesetting
  | core
  /-- A category of the caller's own. -/
  | named (name : String)
  deriving DecidableEq

namespace ModuleCategory

def name : ModuleCategory → String
  | drawing => "drawing"
  | typesetting => "typesetting"
  | core => "core"
  | named n => n

def all : List ModuleCategory := [drawing, typesetting, core]

def ofName (n : String) : ModuleCategory := (all.find? (·.name = n)).getD (named n)

end ModuleCategory

structure MapModule where
  id : String
  displayName : String
  description : String
  code : String
  category : ModuleCategory := .drawing
  isCustom : Bool := false
  deriving DecidableEq

namespace MapModule

def sectionMarkerCode : String :=
  String.intercalate "\n"
    ["code metapost",
     "def l_section (expr P) =",
     "  T:=identity;",
     "  pickup pencircle scaled 0.5bp;",
     "  draw P withcolor (0.5, 0, 0.5);",
     "  pair p_start, p_end;",
     "  p_start := point 0 of P;",
     "  p_end := point (length P) of P;",
     "  draw (p_start + (5pt,0)) -- (p_start - (5pt,0)) rotated (angle(direction 0 of P))" ++
       " shifted p_start withcolor (0.5, 0, 0.5);",
     "  draw (p_end + (5pt,0)) -- (p_end - (5pt,0)) rotated (angle(direction (length P) of P))" ++
       " shifted p_end withcolor (0.5, 0, 0.5);",
     "enddef;",
     "endcode"]

def sandCode : String :=
  String.intercalate "\n"
    ["code metapost",
     "def a_sand (expr p) =",
     "  T:=identity;",
     "  pickup pencircle scaled 0.1bp;",
     "  path q; q = bbox p;",
     "  picture tmp_pic;",
     "  tmp_pic := image(",
     "    for i = xpart llcorner q step 0.15u until xpart urcorner q:",
     "      for j = ypart llcorner q step 0.15u until ypart urcorner q:",
     "        draw origin shifted ((i,j) randomized 0.12u) withpen pencircle scaled 0.1bp;",
     "      endfor;",
     "    endfor;",
     "  );",
     "  clip tmp_pic to p;",
     "  draw tmp_pic withcolor (0.5, 0.4, 0.2);",
     "enddef;",
     "endcode"]

def flowstoneWallCode : String :=
  String.intercalate "\n"
    ["code metapost",
     "def l_u_flowstone (expr P) =",
     "  T:=identity;",
     "  pickup pencircle scaled 0.5bp;",
     "  path Q; Q := P;",
     "  for i=0 step 0.2u until (arclength P):",
     "    pair p_at, d_at;",
     "    p_at := point (arctime i of P) of P;",
     "    d_at := unitvector(direction (arctime i of P) of P) rotated 90;",
     "    draw p_at -- (p_at + d_at * 0.15u) withcolor (0.7, 0.5, 0.2);",
     "  endfor;",
     "  draw P withcolor (0.7, 0.5, 0.2);",
     "enddef;",
     "endcode"]

def builtins : List MapModule :=
  [{ id := "l_section_marker"
     displayName := "Section marker"
     description := "Standard cross-section line marker with end ticks."
     code := sectionMarkerCode },
   { id := "a_sand_wiki"
     displayName := "Sand (fine pattern)"
     description := "Randomly scattered dots for a realistic sand fill."
     code := sandCode },
   { id := "l_u_flowstone_wiki"
     displayName := "Flowstone wall"
     description := "Toothed line for flowstone-covered walls."
     code := flowstoneWallCode }]

/-- The enabled modules in registry order: the built-in ones first, each kind in its own order. -/
def enabled (builtins customs : List MapModule) (isEnabled : String → Bool) : List MapModule :=
  (builtins ++ customs).filter fun m => isEnabled m.id

def joinedCode (modules : List MapModule) : String :=
  String.intercalate "\n\n" (modules.map (·.code))

end MapModule

end CaveMap
