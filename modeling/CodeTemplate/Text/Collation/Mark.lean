import CodeTemplate.Text.CodeRun

/-! Accents and other marks that join the letter before them. -/

namespace CodeTemplate.Text.Collation

/-- The marks in their order, those of one level together. Numbers beyond all characters stand for
levels that only parts of characters have. -/
def markLevels : List (List CodeRun) := List.map CodeRun.listOfText <| split ';' "
  332; 313 343 486 2cf1; 314 485 2cf0; 301 341 954; 300 340 953; 306; 302; 30c; 30a; 342; 308;
  30b; 303; 307; 338; 327; 328; 304; 30d+2 312 315 31a 33d+3 346 34a+3 350+3 357 35b 35d+2 484 487
  741 745 b55 17cb+7 17dd 1ab0+5 1abb+2 1dc0+2 1dc3+7 1dcb+4 1dd1 1df5+4 1dfb 1dfe 20f0 2cef
  a67c+2 10ae5 10d24+4 10f48+3 10f4c 1bc9d; 316+4 31c+5 329+4 32f 333 33a+3 347+3 34d+2 353+4
  359+2 35c+3*3 742 746 7fd 859+3 1ab5+6 1abd 1dc2 1dcf+2 1df9 1dfc+2 1dff 20ec+4 fe27 10a0d 10ae6
  10f46+2 10f4b 10f4d+4; 336+2 20d8+3 20e5 20ea+2 1bc9e; 1abe 20dd+4 20e2+3; 3099; 309a; 335; 305;
  309; 30f; 310; 311; 31b; 321; 322; 323; 324; 325; 326; 32d; 32e; 330; 331; 334; 339; 345; 358;
  360 fe22 fe29; 361 fe20; 483 fe2e; a66f; 5b0; 5b1; 5b2; 5b3; 5b4; 5b5; 5b6; 5b7; 5b8 5c7; 5b9+2;
  5bb; 5c2; 5c1; 5bc; 5bf; fb1e; 81c+2; 81e+3; 821+3; 824+2; 826+2; 828+3; 82b; 82c; 818; 819;
  82d; 64b; 8f0; 8e7; 64c; 8f1; 8e8; 64d; 8f2; 8e9; 64e; 8e4; 8f4; 8f5; 64f; 8e5; 8fe; 650; 8e6;
  8f6; 651 afb 11237; 652 afa 1123e; 653 afc 10eac; 654 10eab; 655; 65f; 656; 657; 658; 8ff; 659;
  65a; 65b; 65c; 65d; 65e; 8e3; 8f7; 8f8; 8fd; 8fb; 8fc; 8f9; 8fa; 670; 711; 730; 731; 732; 733;
  734; 735; 736; 737; 738; 739; 73a; 73b; 73c; 73d; 73e; 73f; 7eb; 7ec; 7ed; 7ee; 7ef; 7f0; 7f1;
  7f2; 7f3; 135f; 135e; 135d; a6f0; a6f1; 16af0; 16af1; 16af2; 16af3; 16af4; 1e944+3; 1e94a;
  1e947; 1e948; 1e949; 93c 9bc a3c abc afd+3 b3c cbc 1b34 1be6 1c37 a9b3 110ba 11173 111ca 11236
  112e9 1133b+2 11446 114c3 115c0 116b7 1183a 11943 11a33 11d42; 900+2 981 a01 a81 b01 c00+2 c81
  d01 d81 1b00+2 a8c5 a980 11000 11080 11100 11180 111cf 11301 11443 114bf 115bc 11640 1193c
  11a35+3 11c3c 11cb6 11d43; 902 982 a02 a82 b02 b82 c02 c04 c82 d00 d02 d82 f7e 1036 17c6 1a74
  1b02 1b80 1ced a80b a880 a981 10a0e 11001 11081 11101 11181 11234 112df 11300 11302 11444 114c0
  115bd 1163d 116ab 11837 1193b 119de 11a38 11a96 11c3d 11cb5 11d40 11d95; 903 983 a03 a83 b03 c03
  c83 d03 d83 f7f 1038 17c7 1b04 1b82 1cf2+2 a881 a983 10a0f 11002 11082 11102 11182 11303 11445
  114c1 115be 1163e 116ac 11838 119df 11a39 11a97 11c3e 11d41 11d96; 9fe 111c9 1145e; a70; a71;
  1b03; a982; 1b81; abec; 10a38; 10a39; 10a3a; 111cb; 111cc; 11a98; e4e; e47; e48; e49; e4a; e4b;
  e4c; e4d; ec8; ec9; eca; ecb; ecc; ecd; aabf; aac1; f39; a92b; a92c; a92d; 1037; 17c8; 17c9;
  17ca; 1a75; 1a76; 1a77; 1a78; 1a79; 1a7a; 1a7b; 1a7c; 1939; 193a; 193b; 16b30 1e131; 16b31
  1e136; 16b32 1e132; 16b33 1e133; 16b34 1e130; 16b35 1e134; 16b36 1e135; 1e2ec; 1e2ed; 1e2ee;
  1e2ef; 302a; 302b; 302c; 302d; 302e; 302f; 16ff0; 16ff1; 20d0; 20d1; 20d2+2; 20d4; 20d5; 20d6;
  20d7; 20db; 20dc; 20e1; 20e6; 20e7; 20e8; 20e9; 101fd; 110000; 110001; 110002; 110003; 110004"

def markLevel? (c : Nat) : Option Nat := markLevels.findIdx? (CodeRun.contains · c)

/-- The characters without any weight: controls, and signs that only direct the writing. -/
def ignored : List CodeRun := CodeRun.listOfText "
  0+9 e+12 7f+6 86+1a ad 34f 488+2 591+1f 5bd 5c4+2 600+6 610+b 61c 640 6d6+8 6df+6 6e7+2 6ea+4
  70f 740 743+2 747+4 7fa 8d3+10 8ea+6 8f3 951+2 f18+2 f35 f37 f3e+2 f82+2 f86+2 fc6 17b4+2 17d3
  180a+5 1a7f 1b6b+9 1cd0+19 1cf4 1cf7+3 200b+5 202a+5 2060+5 2066+a 2d7f a670+3 a8e0+12 fe00+10
  fe21 fe23+4 fe28 fe2a+4 fe2f fe73 feff fff9+3 102e0 110bd 110cd 11366+7 11370+5 13430+9 16fe4
  1bca0+4 1d165+5 1d16d+16 1d185+7 1d1aa+4 1d242+3 1da00+37 1da3b+32 1da75 1da84 1da9b+5 1daa1+f
  1e8d0+7 e0001 e0020+60 e0100+f0"

/-- The marks by their place at the letter: marks of different classes do not touch each other, and
their order is not part of the text. -/
def markClasses : List (Nat × List CodeRun) := [
  (1, CodeRun.listOfText "
    334+5 1cd4 1ce2+7 20d2+2 20d8+3 20e5+2 20ea+2 10a39 16af0+5 1bc9e 1d167+3"),
  (6, CodeRun.listOfText "16ff0+2"),
  (7, CodeRun.listOfText "
    93c 9bc a3c abc b3c c3c cbc 1037 1b34 1be6 1c37 a9b3 110ba 11173 111ca 11236 112e9 1133b+2
    11446 114c3 115c0 116b7 1183a 11943 11d42 1e94a"),
  (8, CodeRun.listOfText "3099+2"),
  (9, CodeRun.listOfText "
    94d 9cd a4d acd b4d bcd c4d ccd d3b+2 d4d dca e3a eba f84 1039+2 1714+2 1734 17d2 1a60 1b44
    1baa+2 1bf2+2 2d7f a806 a82c a8c4 a953 a9c0 aaf6 abed 10a3f 11046 11070 1107f 110b9 11133+2
    111c0 11235 112ea 1134d 11442 114c2 115bf 1163f 116b6 1172b 11839 1193d+2 119e0 11a34 11a47
    11a99 11c3f 11d44+2 11d97"),
  (10, CodeRun.listOfText "5b0"),
  (11, CodeRun.listOfText "5b1"),
  (12, CodeRun.listOfText "5b2"),
  (13, CodeRun.listOfText "5b3"),
  (14, CodeRun.listOfText "5b4"),
  (15, CodeRun.listOfText "5b5"),
  (16, CodeRun.listOfText "5b6"),
  (17, CodeRun.listOfText "5b7"),
  (18, CodeRun.listOfText "5b8 5c7"),
  (19, CodeRun.listOfText "5b9+2"),
  (20, CodeRun.listOfText "5bb"),
  (21, CodeRun.listOfText "5bc"),
  (22, CodeRun.listOfText "5bd"),
  (23, CodeRun.listOfText "5bf"),
  (24, CodeRun.listOfText "5c1"),
  (25, CodeRun.listOfText "5c2"),
  (26, CodeRun.listOfText "fb1e"),
  (27, CodeRun.listOfText "64b 8f0"),
  (28, CodeRun.listOfText "64c 8f1"),
  (29, CodeRun.listOfText "64d 8f2"),
  (30, CodeRun.listOfText "618 64e"),
  (31, CodeRun.listOfText "619 64f"),
  (32, CodeRun.listOfText "61a 650"),
  (33, CodeRun.listOfText "651"),
  (34, CodeRun.listOfText "652"),
  (35, CodeRun.listOfText "670"),
  (36, CodeRun.listOfText "711"),
  (84, CodeRun.listOfText "c55"),
  (91, CodeRun.listOfText "c56"),
  (103, CodeRun.listOfText "e38+2"),
  (107, CodeRun.listOfText "e48+4"),
  (118, CodeRun.listOfText "eb8+2"),
  (122, CodeRun.listOfText "ec8+4"),
  (129, CodeRun.listOfText "f71"),
  (130, CodeRun.listOfText "f72 f7a+4 f80"),
  (132, CodeRun.listOfText "f74"),
  (202, CodeRun.listOfText "321+2 327+2 1dd0"),
  (214, CodeRun.listOfText "1dce"),
  (216, CodeRun.listOfText "31b f39 1d165+2 1d16e+5"),
  (218, CodeRun.listOfText "1dfa 302a"),
  (220, CodeRun.listOfText "
    316+4 31c+5 323+4 329+b 339+4 347+3 34d+2 353+4 359+2 591 596 59b 5a2+6 5aa 5c5 655+2 65c 65f
    6e3 6ea 6ed 731+3*3 738+2 73b+2 73e 742+4*2 7f2 7fd 859+3 899+3 8cf+5 8e3+3*3 8ed+3 8f6 8f9+2
    952 f18+2 f35 f37 fc6 108d 193b 1a18 1a7f 1ab5+6 1abd 1abf+2 1ac3+2 1aca 1b6c 1cd5+5 1cdc+4
    1ced 1dc2 1dca 1dcf 1df9 1dfd 1dff 20e8 20ec+4 a92b+3 aab4 fe27+7 101fd 102e0 10a0d 10a3a
    10ae6 10f46+2 10f4b 10f4d+4 10f83 10f85 1d17b+8 1d18a+2 1e8d0+7"),
  (222, CodeRun.listOfText "59a 5ad 1939 302d"),
  (224, CodeRun.listOfText "302e+2"),
  (226, CodeRun.listOfText "1d16d"),
  (228, CodeRun.listOfText "5ae 18a9 1df7+2 302b"),
  (230, CodeRun.listOfText "
    300+15 33d+8 346 34a+3 350+3 357 35b 363+d 483+5 592+4 597+3 59c+6 5a8+2 5ab+2 5af 5c4 610+8
    653+2 657+5 65d+2 6d6+7 6df+4 6e4 6e7+2 6eb+2 730 732+2 735+2 73a 73d 73f+3 743+4*2 74a 7eb+7
    7f3 816+4 81b+9 825+3 829+5 898 89c+4 8ca+5 8d4+e 8e4+2 8e7+2 8ea+3 8f3+3 8f7+2 8fb+5 951
    953+2 9fe f82+2 f86+2 135d+3 17dd 193a 1a17 1a75+8 1ab0+5 1abb+2 1ac1+2 1ac5+5 1acb+4 1b6b
    1b6d+7 1cd0+3 1cda+2 1ce0 1cf4 1cf8+2 1dc0+2 1dc3+7 1dcb+2 1dd1+25 1dfb 1dfe 20d0+2 20d4+4
    20db+2 20e1 20e7 20e9 20f0 2cef+3 2de0+20 a66f a674+a a69e+2 a6f0+2 a8e0+12 aab0 aab2+2 aab7+2
    aabe+2 aac1 fe20+7 fe2e+2 10376+5 10a0f 10a38 10ae5 10d24+4 10eab+2 10f48+3 10f4c 10f82 10f84
    11100+3 11366+7 11370+5 1145e 16b30+7 1d185+5 1d1aa+4 1d242+3 1e000+7 1e008+11 1e01b+7 1e023+2
    1e026+5 1e130+7 1e2ae 1e2ec+4 1e944+6"),
  (232, CodeRun.listOfText "315 31a 358 1df6 302c"),
  (233, CodeRun.listOfText "35c+3*3 1dfc"),
  (234, CodeRun.listOfText "35d+2 360+2 1dcd"),
  (240, CodeRun.listOfText "345")]

/-- The class of a mark, and zero for everything else. -/
def classOf (c : Nat) : Nat :=
  match markClasses.find? (fun k => CodeRun.contains k.2 c) with
  | some k => k.1
  | none => 0

end CodeTemplate.Text.Collation
