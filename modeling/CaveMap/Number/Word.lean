namespace CaveMap

def wordLimit : Int := 0x8000000000000000

def isWord (i : Int) : Bool := -wordLimit ≤ i && i < wordLimit

end CaveMap
