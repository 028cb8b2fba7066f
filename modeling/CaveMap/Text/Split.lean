namespace CaveMap.Text

/-- The stretches between separators; there is one more of them than there are separators. -/
def stretches (separates : Char → Bool) : List Char → List (List Char)
  | [] => [[]]
  | c :: rest =>
    if separates c then [] :: stretches separates rest
    else
      match stretches separates rest with
      | [] => [[c]]
      | first :: more => (c :: first) :: more

def pieces (separates : Char → Bool) (text : List Char) : List (List Char) :=
  (stretches separates text).filter (!·.isEmpty)

/-- The flag says whether a mark stands already for the stretch that is being passed. -/
def collapseFrom (separates : Char → Bool) (mark : Char) : Bool → List Char → List Char
  | _, [] => []
  | marked, c :: rest =>
    if separates c then
      if marked then collapseFrom separates mark true rest
      else mark :: collapseFrom separates mark true rest
    else c :: collapseFrom separates mark false rest

/-- One mark in place of each longest stretch of separating characters. -/
def collapse (separates : Char → Bool) (mark : Char) (text : List Char) : List Char :=
  collapseFrom separates mark false text

def stripOf (drops : Char → Bool) (text : List Char) : List Char :=
  ((text.dropWhile drops).reverse.dropWhile drops).reverse

/-- A carriage return and the line feed behind it count as one line feed. -/
def joinReturns : List Char → List Char
  | [] => []
  | '\r' :: '\n' :: rest => '\n' :: joinReturns rest
  | c :: rest => c :: joinReturns rest

/-- Every carriage return, with or without a line feed behind it, becomes a line feed. -/
def unifyNewlines (text : List Char) : List Char :=
  (joinReturns text).map fun c => if c = '\r' then '\n' else c

end CaveMap.Text
