import CodeTemplate.Text.CodeRun

/-! The order of all characters that are no marks: blanks, punctuation, signs, currencies, digits
and letters, then the scripts too large to be listed and everything unknown. -/

namespace CodeTemplate.Text.Collation

/-- The blanks, line ends among them. -/
def spaces : List CodeRun := CodeRun.listOfText "
  9+5 85 2028+2 20"

/-- The marks of punctuation and the brackets. -/
def punctuation : List CodeRun := CodeRun.listOfText "
  203e 5f 2017 2d 58a 1400 1b60 1806+2 2010 2012+4 2e3a+2 2053 2e43 2e17 2e40 301c 3030 30a0 30fb
  10ead 2c 2e34 2e32 2e41 2e4c 2e4e+2 55d 60c+2 66b+2 7f8 1802 1808 a4fe a60d a6f5 16e97 3001
  fe45+2 16fe2 3b 61b 204f 2e35 a6f6 2e49 3a 589 61e 703+6 830+f 1361 1363+4 1804+2 f14 17d6 1b5d
  a9c7 16eb+3 a6f4 21 a1 55c 7f9 1944 1e95e 3f bf 2e2e 55e 61f 709 1367 1945 2cfa+2 a60f a6f7 aaf1
  11143 1e95f 203d 2e18 2e 1801 6d4 701+2 1362 1803 1809 166e 1b5c 2cf9 2cfe 2e30 2e3c a4ff a60e
  a6f3 16af5 16e98 1bc9f 3002 b7 2e31 2e33 964+2 a8ce+2 1c3b+2 a876+2 1735+2 a92f 104a+2 17d4+2
  1aa8+4 1b5e+2 a9c8+2 aa5d+3 aaf0 abeb 10a56+2 11047+2 110c0+2 11141+2 111c5+2 11238+2 1144b+2
  115c2+2 11641+2 1173c+2 11944 11c41+2 16a6e+2 1c7e+2 700 7f7 10fb 1360 1368 1a1e+2 1b5a+2 a9c1+6
  a9ca+4 a6f2 a95f 10857 10b3a+6 10f55+5 110be+2 11140 111c8 111de+2 112a9 1173e 11946 11ef7+2
  2055+2 2058+7 2e2a+4 2e3d 2cfc 2cff 2e19 1093f 10100+3 1039f 103d0 1091f 12470+5 27 2018+4
  2039+2 22 201c+4 2e42 301d+3 ab bb 28+2 5b 5d 7b 7d f3a+4 169b+2 2045+2 2308+4 29fc+2 2983+16
  27c5+2 27e6+a 2768+e 2e02+4 2e09+2 2e0c+2 2e1c+2 2e20+a 3008+a 3014+8 fd3e+2 2016 2e3e 29d8+4 a7
  2e39 b6 204b 2e4d 2e3f 40 2a 204e 2051 66d a673 2f 5c 2e4a 26 204a 2e52 23 25 66a 2030 609 2031
  60a 2020+2 2e36+3 2e4b 2022+2 2027 2043 204c+2 2032 2035 3003 303d 2038 203b 203f 2054 2040 2050
  2041+2 2e00+2 2e06+3 2e0b 2e0e+9 2e1a+2 2e1e+2 2e44+5 a67e 55a+2 55f 5be 5c0+3*3 5f3+2 70a+4 85e
  1800 11660+d 970 a8f8+3 a8fc 9fd a76 af0 c77 c84 df4 e4f e5a+2 aade+2 f04+7 fd0+2 f0b f0d+6 f85
  fd2+3 fd9+2 11a3f+8 11a9a+3 11a9e+5 11c70+2 1c3d+3 104c+4 17d8+3 1aa0+7 1aac+2 1cc0+8 2d70
  a874+2 1bfc+4 a92e a9de+2 aa5c 1056f 11049+5 10a50+6 10a58 11c43+3 10b39 10af0+7 10b99+4 110bb+2
  11174+2 111cd 111c7 111db 111dd 1123a+4 1144d 1145a 1144e+2 1145b 1145d 114c6 115c1 115c4+14
  11643 1183b 11945 119e2 11fff 16b37+5 16b44 16e99+2 1da87+5 10a7f"

/-- The modifiers, the signs of mathematics and technique, arrows, boxes and pictures. -/
def signs : List CodeRun := CodeRun.listOfText "
  60 b4 2dc 5e af 2d8+2 a8 2da 2dd b8 2db 1fbd 1ffe 1fc0 309b+2 2b9 375 2ba 2c2+e 2d2+4 ab6a+2
  2d6+2 2de+2 2e5+9 2ef+11 1390+a a700+22 a788+3 ab5b b0 482 58d+2 608 1eef0+2 60e+2 6de 6e9 fdfd
  fbb2+10 7f6 9fa b70 bf3+6 bfa 11fd5+8 11fe1+11 c7f d4f d79 a828+4 a836+2 a839 f01+3 f13 f15+3
  f1a+6 f34+3*2 fbe+8 fc7+6 fce+2 fd5+4 166d 1940 109e+2 aa77+3 1173f 19e0+20 1b61+a 1b74+9 a9
  1f12f ae 1f1ad 2104 2108 2114 2117+2 211e+2 2123+4*2 212e 213a 2141+4 214a 214c 214f 218a+2 2190
  2192 2191 2193+7 219c+12 21af+1e 21d0+34 2205+4 220a+2 220d 3f6 220e+4 2b b1 f7 d7 3c+3 ac 7c a6
  7e 2212 2052 2213+3 2044 2216+6 606 221c 607 221d+7 2225 2227+5 222e 2231+10 2242+2 2245+2 2248
  224a+16 2261 2263+a 2272+2 2276+2 227a+6 2282+2 2286+2 228a+22 22b0+d 214b 22bd+23 22e4+6
  22ee+1a 230c+1d 232b+fc 2440+b 2500+100 1fb00+93 1fb94+37 2600+30 2638+35 2670+1a 2690+70
  1f1e6+1a 2700+21 2e50+2 2721+47 2794+31 27c7+1f 27f0+10 2900+83 2999+3f 29dc+20 29fe+e 2a0d+67
  2a77+65 2add+97 2b76+20 2b97+69 2ce5+6 2800+100 268a+6 2630+8 4dc0+40 1d300+57 a490+37 10137+9
  10179+11 1018c+3 10190+d 101a0 101d0+2d 10877+2 16b3c+4 16b45 1e14f 1d000+f6 1d100+27 266d+3
  1d12a+10 1d129 1d13a+24 1d16a+3 1d183+2 1d18c+1e 1d1ae+d 1d1c1+28 1d200+42 1d245 1bc9c 1ecac
  1ed2e 1f000+2c 1f030+64 1f0a0+f 1f0b1+f 1f0c1+f 1f0d1+25 1fa00+54 1fa60+e 1f10d+3 1f16d+3
  1f260+6 1f300+300 1f900+100 1fa70+d 1fa80+9 1fa90+2e 1fabf+7 1face+e 1fae0+9 1faf0+9 1f600+d8
  1f6dc+11 1f6f0+d 1f700+77 1f77b+5f 1f7e0+c 1f7f0 1f800+c 1f810+38 1f850+a 1f860+28 1f890+1e
  1f8b0+2 1d800+200 1da37+4 1da6d+8 1da76+e 1da85+2 2ff0+c 31c0+24 3004 3012+2 3020 3037 303e+2
  3190+2 327f fffc 2d0+2 971 e46 ec6 17d7 1aa7 a9cf a9e6 aa70 aadd aaf3+2 16b42+2 1e13c+2 3005
  303b 16fe0+2 16fe3 3031+3*2 309d 30fc+2"

/-- The signs of currencies. -/
def currencies : List CodeRun := CodeRun.listOfText "
  a4 a2 24 a3 a5 58f 60b 7fe+2 9f2+2 9fb af1 a838 bf9 11fdd+4 e3f 17db 1e2ff 20a0+8 20a9+11 1ecb0
  20ba+7"

/-- The digits, each once for all systems of writing, and the signs of numbers. -/
def digits : List CodeRun := CodeRun.listOfText "
  9f4+6 b72+6 a830+6 bf0+3 11fc0+15 d58+7 d70+9 1372+b 2180+3 2186+3 10e69+16 2cfd 10322+2 10cfc+4
  10110+24 10140+2 10144+4 10149+6 10150+8 10160+13 10174+5 1018b 102ea+12 103d3+3 1087e+2 108ad+3
  108fd+3 10a7e 10a9e+2 10917+3 1085b+5 10aed+3 10b5c+4 10b7c+4 10bad+3 10f22+5 10f52+3 10fc9+3
  1173a+2 1105b+b 10a44+5 11c63+a 111ea+b 118ea+9 16b5b+7 16e8a+a 1d2ea+a 1ec7a+29 1ecad+3 1ecb3+2
  1ed0a+24 1ed37+7 109c9+7 109d2+24 109bd 109f6+a 109bc 12432+2 1245a+f 1d369+9 30+a"

/-- The letters of all alphabets, the small form standing for both, then syllables and vowels. -/
def letters : List CodeRun := CodeRun.listOfText "
  61 1d00 2c65 1d8f a7bb 1d01+2 ab31 250+2 ab30 1d90 252 ab64 62 299 180 1d2f 1d03 1d6c a797 1d80
  253 183 a7b5 63 1d04 23c a793+2 188 255 2184 a73f 64 1d05+2 a7c8 1d6d 1d81 256+2 1d91 18c 221
  a771 1e9f 65 1d07 ab32+2 247 1d92 ab34 2c78 1dd 2c7b 259 1d95 25b 1d93 258+3*2 1d94 1d08 25d+2
  29a 264 66 a730 ab35 a799 1d6e 1d82 192 214e a7fb 67 261 ab36 262 1e5 1d83 260 29b 1d77 a77f 263
  1a3 68 29c 195 a795 266 2c68 2c76 a7f6 a727 267 2bb 2bd 69 131 26a a7fe a7f7 1d09 268 1d7b 1d96
  a7bd 269 1d7c 6a 237 1d0a 249 29d 25f 284 6b 1d0b 1d84 199 2c6a a741+3*2 29e 6c 29f a747 1d0c
  a749 19a 2c61 26b ab38+2 26c ab37 1d85 26d a78e 234 a772 26e a781 19b 28e 6d 1d0d 1d6f 1d86 271
  ab3a a7fd a7ff a773 6e 274 1d3b 1d0e 1d70 272 19e a791 1d87 273 235 ab3b a774 14b ab3c 6f 1d0f
  1d11 ab3d 276 1d14 ab41+2 ab40 ab43+2 1d13 ab3e 254 1d10 1d12 ab3f 1d97 ab62 a74d 1d16+2 2c7a
  275 a74b 277 a7b7 223 1d15 70 1d18 1d7d a751 1d71 1d88 1a5 a753 a755 a7fc 278 2c77 71 a7af a757
  a759 2a0 24b 138 72 ab45 280 ab46 a75b 1d19 24d 1d72 279 1d1a 27a 1d89 27b 2c79 27c+2 ab49 27e
  1d73 27f ab47+2 ab4a+3 281 ab68 a775+2 a75d 73 a731 a7ca 1d74 1d8a 282 23f 1e9c+2 283 ab4d 1d8b
  1aa 285 1d98 286 74 1d1b 167 2c66 1d75 1ab 1ad 288 236 a777 287 75 1d1c ab4e 1d1d+2 1d6b ab50+2
  289 ab4f a7b9 1d7e 1d99 ab52 a7bf 265 2ae+2 26f a7fa 1d1f 270 28a 1d7f 76 1d20 a75f 1d8c 28b
  2c71 2c74 1efd 28c 77 1d21 a7c3 2c73 28d 78 1d8d ab56+4 ab53+3 79 28f 24f 1b4 1eff ab5a 21d 7a
  1d22 1b6 1d76 1d8e 225 290+2 240 2c6c a763 292 1d23 1b9 1d9a 1ba 293 fe a765 a767 1bf a769
  ab60+2 ab63 a76b+3*2 a778 1bb a72b+3*2 1a8 1bd 185 294 242 2c0 2bc 2ee 2be a723 a78c a78f 295
  2bf 2c1 1d24+2 a725 2a1+2 296 1c0+4 297+2 2ac+2 3b1+3 1d26 3b4+2 3dd 377 3db 3b6 371 3b7+3 3f3
  3ba+2 1d27 3bc+5 1d28 3fb 3df 3d9 3c1 1d29 3fc 3c3 37c 37b 37d 3c4+5 1d2a 3c9 ab65 3e1 373 3f8
  2c81+5*2 2cb7 2c8b+6*2 2cb9 2c97+3*2 2cbb 2cbd 2c9d+b*2 2cbf 2cc1 3e3 2cec 2cc3+3*2 3e5 3e7 2cf3
  2cc9 3e9 2ccb+6*2 3eb 2cee 2cd7 3ed 2cd9+3*2 3ef 2cb3 2cb5 2cdf+3*2 430 4d9 4d5 431+3 493 4fb
  495 4f7 434 501 a681 452 a663 503 499 435 454 436 52b a685 497 437 a641 505 511 a643 455 a645
  4e1 a689 507 a683 438 48b 456 a647 439 458 a649 43a 49b 4c4 4a1 49f 49d 51f 51b 43b 1d2b 4c6 52f
  513 521 459 a665 509 515 43c 4ce a667 43d 529 4ca 4a3 4c8 523 4a5 45a 50b 43e 4e9 43f 525 4a7
  481 440 48f 517 441 50d 4ab 442 a68d 50f 4ad a68b 45b 443 4af 4b1 a64b 479 444+2 4fd 4ff 4b3 4bb
  527 a695 461 47f a64d 47d 47b 446 a661 a68f 4b5 a691 447 52d a693 4b7 4cc 4b9 a687 4bd 4bf 45f
  448 a697 449 a64f 2e2f a67f 44a a651 44b+2 48d 463 a653 44d+2 a655 a657 44f 519 465 467 a659 46b
  a65b 469 a65d 46d+5*2 a65f 4a9 51d 4cf 2c30+2f 10350+26 10d0 2d00 10d1 2d01 10d2 2d02 10d3 2d03
  10d4 2d04 10d5 2d05 10d6 2d06 10f1 2d21 10d7 2d07 10d8 2d08 10d9 2d09 10da 2d0a 10db 2d0b 10dc
  2d0c 10f2 2d22 10dd 2d0d 10de 2d0e 10df 2d0f 10e0 2d10 10e1 2d11 10e2 2d12 10f3 2d23 10e3 2d13
  10e4 2d14 10e5 2d15 10e6 2d16 10e7 2d17 10e8 2d18 10e9 2d19 10ea 2d1a 10eb 2d1b 10ec 2d1c 10ed
  2d1d 10ee 2d1e 10f4 2d24 10ef 2d1f 10f0 2d20 10f5 2d25 10f6+2 2d27 10f8+3 10fd 2d2d 10fe+2 561
  560 562+14 588 576+11 559 5d0+a 5db+2 5de 5e0+3 5e4 5e6+5 10900+16 800+18 81a+2 621+3 672 671
  624+2 673 773+2 626 8a8+2 8ac 627 66e 628 67b 67e 680 750+6 8a0 756 8be 8a1 8b6+2 629+3 679+2
  67c+2 67f 8b8 8bf+2 62c 683+2 686 6bf 687 8a2 8c1 8c5+2 62d+2 681+2 685 757+2 76e+2 772 77c
  62f+2 688+6 8ae 68e+3 6ee 759+2 631+2 691+9 6ef 75b 76b+2 771 8aa 8b2 8b9 633+2 69a+3 6fa 75c
  76d 770 77d+2 635+2 69d 8af 69e 6fb 637+2 69f 8a3 639+2 6a0 8c3 6fc 75d+3 8b3 641 6a1+2 8bb
  6a3+2 8a4 6a5+2 760+2 66f 642 6a7 8bc 6a8 8c4 8a5 643 6a9+4 77f 6ad+2 8b4 6af 8b0 6b0+5 762
  63b+2 763+2 8c2 644 6b5+4 76a 8a6 8c7 645 765+2 8a7 646 6ba 8bd 6bb+3 6b9 767+3 647 6be 6c1 6c3
  6ff 6d5 648 6c4+8 8b1 6cf 778+2 8ab 649+2 6cc+3 6d0+2 63d+3 620 775+3 8ba 6d2 77a+2 710 712+2
  716 715 717+3 74d 71a+2 71d+3 74e 720+4 725+2 74f 728+5 860+b 840+19 780 799+2 781+3 79c 784+4
  7a2+2 788 7a5 789+3 79b 78c 798 7a0+2 78d+2 7a4 78f+2 79d+3 791+7 7b1 7a6+b 7ca+1e 7f4+2 2d30+c
  2d66 2d3c+18 2d67 2d54+12 2d6f 1200+10 2d80 1210+10 1380+4 2d81 1220+10 2d82 1230+8 2d83 ab01+6
  1238+8 2d84 1240+9 124a+4 1250+7 1258 125a+4 1260+8 1384+4 2d85 1268+10 2d86 1278+8 2d87 1280+9
  128a+4 1290+8 2d88 1298+8 2d89 12a0+8 2d8a 12a8+9 12b2+4 12b8+7 12c0 12c2+4 12c8+f 12d8+8 2d8b
  ab11+6 12e0+18 2d8c ab09+6 12f8+8 2d8d 1300+8 2d8e 1308+9 1312+4 1318+8 2d93+4 1320+8 2d8f
  1328+8 2d90 ab20+7 1330+8 2d91 1338+8 ab28+7 1340+10 1388+4 1350+8 138c+4 2d92 1358+3 2da0+7
  2da8+7 2db0+7 2db8+7 2dc0+7 2dc8+7 2dd0+7 2dd8+7 950 a8fd 972 904+3 973+5 907+5 960 90c 961
  90d+4 a8fe 911+7 97b 918+5 979 97c 91d+4 978 921 97e 922+7 92a+3 97f 92d+3 97a 930 932+2 935+5
  93d 97d 1ce9 1cf5+2 a8f2 a8fb 93e 93a+2 94f 956+2 93f+6 962+2 945 955 946+2 94e 948 a8ff 949+5
  980 985+7 9e0 98c 9e1 98f+2 993+16 9aa+7 9f0 9b2 9f1 9b6+4 9bd+8 9e2+2 9c7+2 9cb+3 9d7 9fc a74
  a73 a09+2 a13 a05+2 a10 a14 a72 a07+2 a0f a38+2 a51 a15+14 a2a+6 a75 a30 a32 a35 a5c a3e+5 a47+2
  a4b+3 ad0 a85+7 ae0 a8c ae1 a8d a8f+3 a93+a af9 a9d+c aaa+7 ab2 ab5+5 ab3 abd+8 ae2+2 ac5 ac7+3
  acb+3 b05+7 b60 b0c b61 b0f+2 b13+16 b2a+6 b5f b30 b32+2 b35 b71 b36+4 b3d+8 b62+2 b47+2 b4b+3
  b56+2 bd0 b85+6 b8e+3 b92+3 b83 b95 b99+2 b9e+2 ba3+2 ba8 baa bae+3 bb2 bb5 bb4 bb3 bb1 ba9 b9c
  bb6+4 bbe+5 bc6+3 bca+4 bd7 c05+7 c60 c0c c61 c0e+3 c12+9 c58 c1b+2 c59 c1d+c c2a+9 c35+5 c33+2
  c5a c3d+8 c62+2 c46+3 c4a+4 c55+2 c85+7 ce0 c8c ce1 c8e+3 c92+17 caa+9 cb5+5 cb3 cde cbd cf1+2
  c80 cbe+7 ce2+2 cc6+3 cca+4 cd5+2 d05+4 d5f d09+3 d60 d0c d61 d0e+3 d12+1f d32 d35+5 d33+2 d31
  d3a d3d d04 d3e+7 d62+2 d46+3 d4a+3 d57 d4d d85+12 d9a+18 db3+9 dbd dc0+7 dcf+6 dd6 dd8 df2 ddf
  df3 dd9+6 dca aaf2 abc0+1b aae0+b abe3+8 aaeb+5 aaf5 abdb+8 abed aaf6 a800+7 a82c a807+4 a80c+1c
  a882+43 11083+17 1109b 1109d+e 110ac+e 11150+20 11176 11170+3 111c4 111da 11183+30 111c1+3 111dc
  111b3+a 111ce 111bd+4 11200+12 11213+21 11235 112b0+2f 112e0+9 112ea 11280+4 112a5+2 11284+3
  11288 1128a+4 1128f+f 1129f+6 112a7+2 11350 11305+7 11360 1130c 11361 1130f+2 11313+16 1132a+7
  11332+2 11335+5 1133d 1135e+2 1133e+7 11362+2 11347+2 1134b+3 11357 1135d 11449+2 11400+35 11447
  11460+2 11448 1145f 11435+e 114c7 11480+30 114c4+2 114b0+f 114c2 11580+36 115b8+4 115bf 11600+3d
  1163f 11644 11680+a 116a8 116a7 116a9 1168a+2 116b8 1168c+1b 116aa 116ad+a 11900+7 11909 1190c+5
  1193f 11911+3 11915+2 11918+e 11940 11926 11941 11927 11942 11928+e 11937+2 1193d+2 119a0+8
  119aa+27 119e1 119e3 119d1+7 119da 119e4 119db+3 119e0 11800+37 11839 11700+5 11706+10 11717+3
  11720+c 1171d+3 11d00+7 11d08+2 11d0b+2c 11d3a 11d3c+2 11d3f 11d44+2 11d98 11d60+6 11d67+2
  11d6a+25 11d90+2 11d93+2 11d97 1b83+8 1bae 1b8b+e 1bbd 1b99 1bac 1b9a 1ba1 1b9b 1ba2 1bbb 1b9c
  1ba3 1bbc 1b9d 1bad 1b9e+2 1baf 1ba0 1ba4+8 11005+2f 11003+2 11034+13 1107f 10a00+4 10a05+2
  10a0c 10a10 10a32 10a11+3 10a15+3 10a19+2 10a34 10a1b 10a33 10a1c+11 10a35 10a2d+5 10a3f 11c00+9
  11c0a+25 11c40 11c2f+8 11c38+4 11c3f e01+3a e40+6 ede e81+2 e84 e86+4 eaa e8a+3*2 edf e8d e8f+15
  ea5 ea7+3 eab+13 ec0+5 aa80+3f aac0 aac2 aadb+2 f40 f90 f6b f41 f91 f42 f92 f44 f94 f45 f95 f46
  f96 f47 f97 f49 f99 f4a f9a f4b f9b f4c f9c f4e f9e f4f f9f f50 fa0 f51 fa1 f53 fa3 f54 fa4 f55
  fa5 f56 fa6 f58 fa8 f59 fa9 f5a faa f5b fab f5d fad f5e fae f5f faf f60 fb0 f61 fb1 f62 fb2 f6c
  f63 fb3 f64 fb4 f65 fb5 f66 fb6 f67 fb7 f68 fb8 f88 f8d f89 f8e f8c f8f f8a+2 f71+2 11000b f80
  11000d f74 11000c f76+8 f84 11a0b 11a32 11a0c+26 11a00+b 11a34 11a47 11a50+4 11a59+2 11a54 11a56
  11a55 11a57+2 11a5b+2 11a83 11a5d+26 11a84+2 11a99 11a9d 11c72 11c92 11c73 11c93 11c74 11c94
  11c75 11c95 11c76 11c96 11c77 11c97 11c78 11c98 11c79 11c99 11c7a 11c9a 11c7b 11c9b 11c7c 11c9c
  11c7d 11c9d 11c7e 11c9e 11c7f 11c9f 11c80 11ca0 11c81 11ca1 11c82 11ca2 11c83 11ca3 11c84 11ca4
  11c85 11ca5 11c86 11ca6 11c87 11ca7 11c88+2 11ca9 11c8a 11caa 11c8b 11cab 11c8c 11cac 11c8d
  11cad 11c8e 11cae 11c8f 11caf+6 1c00+a 1c4d+3 1c0a+11 1c24 1c1b 1c25 1c1c+8 1c36 1c26+10 a840+8
  a869+4 a848+c a867 a854+4 a868 a86d a858 a871+2 a859+2 a86e a85b+2 a86f+2 a85d a862+4 a85e+4
  a866 a873 1900+1d 1920+c 1930+9 1700+d 170e+7 1720+15 1740+14 1760+d 176e+3 1772+2 1a00+1c
  11ee0+17 1bc0 1bc2 1bc5+4*2 1bce 1bd0+3 1bd4+3*2 1bdb 1bdd+2 1be0+6 1be7 1be9+2 1bec+3*2 1bf1+3
  a930+24 a90a+21 1000 1075 1001 1076 1002 1077 aa60 a9e9 1003 a9e0 a9ea 1004 105a 1005 1078 aa61
  1006 a9e1 aa62 aa7e 1007 aa63 a9eb 1079 aa72 1008 105b a9e2 aa64 a9ec 1061 aa7f 1009 107a aa65
  a9e7 100a+2 aa66 100c aa67 100d aa68 a9ed 100e aa69 a9ee 100f 106e a9e3 a9ef 1010+3 107b a9fb
  1013 aa6a a9fc 1014 107c aa6b 105e 1015+2 107d+2 aa6f 108e a9e8 1017 107f a9fd 1018 a9e4 a9fe
  1019 105f 101a 103b 101b aa73 aa7a 103c 101c 1060 101d 103d 1082 1080 1050+2 1065 101e aa6c 101f
  1081 aa6d 103e aa6e aa71 1020 a9fa 105c+2 106f+2 1066 1021+6 1052+4 1027+4 102c 1083 1072 109c
  102d 1071 102e 1033 102f 1073+2 1030 1056+4 1031 1084 1035 1085 1032 109d 1034 1062 1067+2 a9e5
  1086 1039+2 1063+2 1069+5 1087 108b 1088 108c+2 1089+2 108f 109a+2 aa7b+3 aa74+3 10d00 10d1d+5
  10d01+1c 10d22+2 11103+21 11147 11124+3 11144 11127+c 11145+2 11133+2 1780+23 17dc 17a3+11
  17b6+10 17d2 1950+1e 1970+5 1980+2c 19b0+1a 1a20+2d 1a53 1a6b 1a55+3 1a5c+3 1a4d+6 1a61 1a6c
  1a62+2 1a65+6 1a6e+2 1a73 1a70+3 1a6d 1a60 aa00+29 aa33+4 aa29+a aa40+e 1b05+f 1b45+2 1b14+f
  1b47 1b23+5 1b48 1b28+8 1b49 1b30+3 1b4a+2 1b33 1b35+10 a984+27 a9be a9ab a9bf a9ad+6 a9b4 a9bc
  a9b6+4 a9bd a9ba+2 a9c0 1880+7 1843 1820 1887 1821 1844 185d 1822 1845 185e 1873 1888 185f 1823
  1846 1824 1847 1861 1825 1848 1826 1849 1860 1827+3 184a 1862 188a 189b 182a 184b 182b 184c 1866
  182c 184d 182d 184e 1864 189a 1865 182e 184f 182f+3 1867 189c+2 18a2 18a4+2 1832 1850 1868 1833
  1851 1869 1834 1852 1871 1878 185c 188b 1835 1853 186a 1877 1836 1855 1872 1837 1875 1838 1856
  1839 186b 1876 183a 1857 1863 1874 1889 183b+2 1854 186e 183d 186f 1858 186c 183e 1859 186d
  183f+4 185a+2 1870 188c 189e 188d+2 189f 188f+2 1898 18a0 1891 18a1 1892+2 18a8 1894 18a3 1895
  1899 1896+2 18a6+2 18aa 18a9 1c5a+24 ab70+50 13f8+6 104d8+24 1401+17b 157d 166f 157e+10 1670
  158e+8 1671+6 1596+11 157c 15a7+c6 1677+9 18b0+46 1681+1a 16a0 16a2 16a6 16a8 16f4 16af+4 16f1
  16b7 16b9+2 16be 16c1 16f5 16c3+3*2 16c8+3 16f2 16cf 16d2 16d6 16f6 16d7 16da+3*2 16df 16f3 16aa
  16f7 16ab 16f8 16a3 16e0 16e3 16b8 16e4 16e1+2 16e5+2 10cc0 10cc2+8 10ccc+5 10cd2+a 10cdd
  10ce0+3 10ce4+7 10cec 10cee+5 10c00 10c02+2 10c05+3 10c09+6*2 10c14+7*2 10c21+4 10c26+4*2 10c2d
  10c2f+4 10c34+5*2 10c3d+3 10c41+4*2 10c48 a500+10d a6a0+50 16800+239 16ad0+1e 1e800+c5 16e60+20
  1e922+22 1e94b 1100+5f a960+1d 115f+49 d7b0+17 11a8+58 d7cb+31 3042+3*2 1b000 3048 304a+2
  304d+b*2 3064+4*2 306b+5 3072+5*3 307f+4 3084+3*2 3089+5 308f+5 1b002+d 1b001 1b00f+110 3105+3
  31ac 3108 312a 3109+3 312f 310c+3 312b 31ad 310f+4 312c 31bc+2 3113+7 31b8+3 311a+2 31a6 311c+2
  31a4 311e+7 31b2 3125 31b0+2 3126+4 312d 31be+2 a000+48d a4f8+4 a4fd a4fc a4d0+1a a4eb a4ed a4ea
  a4ec 11fb0 a4ee+a 16f00+4 16f45 16f04+2 16f07+7 16f48 16f0e+2 16f4a 16f10+3 16f14+11 16f26+d
  16f47 16f33 16f46 16f34+6 16f49 16f3a+5 16f40+5 16f50+4 16f4f 16f54+5 16f81 16f59+4 16f83
  16f5d+4 16f84 16f61+5 16f86 16f66+8 16f7f 16f87 16f6e+5 16f80 16f73+2 16f85 16f82 16f75+a
  16f8f+11 118ff 118c0+20 11ad5+7 11ac0+15 11adc+2 11adf+5 11ade 11ae4 11aef 11af2 11af1 11ae6
  11ae9 11ae5 11ae8 11af4 11af7 11af3 11af6 11aec 11aee 11aeb 11aed 11af5 11af8 11ae7 11aea 11af0
  16b00+30 16b40+2 16b63+15 16b7d+13 1e100+2d 1e137+5 1e14e 1e2c0+2c 10280+1d 102a0+31 10920+1a
  10300+f 1031f 1030f+10 1032d+1e 10428+58 1bc00+6b 1bc70+d 1bc80+9 1bc90+a 10480+1e 10500+28
  10530+34 110d0+19 16a40+1f 10000+c 1000d+1a 10028+13 1003c+2 1003f+f 10050+e 10080+7b 10600+137
  10740+16 10760+8 10800+6 10808 1080a+2c 10837+2 1083c 1083f 10a60+1d 10a80+1d 10b00+2e 10b2f+7
  10860+d 1086e+9 10881 10883+3 10887+5 1088d+5*2 10896+6 1089d+2 108e0+13 108f4+2 10840+16
  10b40+16 10b60+13 10b80+12 10fe0+16 10ac0+8 10ac9+1c 10f00+3*2 10f05 10f07+8 10f11+2 10f14+2
  10f18+3 10f30+15 10e80+21 10eb0 10ea1+8 10eb1 10ea9 10fb0+15 10380+1e 103a0+24 103c8+8 12000+263
  122d4+2 12263+71 122d6+c4 12480+c4 13000+42f 109a0+10 109b1+7 109be+2 1099e+2 14400+247"

def alphabet : List CodeRun :=
  spaces ++ punctuation ++ signs ++ currencies ++ digits ++ letters

/-- What follows the alphabet, the characters of each part in the order of their codes: Tangut,
Nushu, Khitan, the ideographs of the first block and those of the later blocks. -/
def lateParts : List (List CodeRun) := [
  CodeRun.listOfText "17000+1b00 18d00+90",
  CodeRun.listOfText "1b170+190",
  CodeRun.listOfText "18b00+200",
  CodeRun.listOfText "4e00+5200 fa0e+2 fa11 fa13+2 fa1f fa21 fa23+2 fa27+3",
  CodeRun.listOfText "3400+19c0 20000+a6e0 2a700+44b1 2ebf0+26e 30000+23b0"]

/-- The part that a character is of: after the late ones come the unknown characters, the
replacement character and the one that is greater than all. -/
def partOf (c : Nat) : Nat :=
  if c = 0xFFFF then lateParts.length + 2
  else if c = 0xFFFD then lateParts.length + 1
  else (lateParts.findIdx? (CodeRun.contains · c)).getD lateParts.length

/-- The place of a character in the order, never zero. One character is less than all. The alphabet
is shorter than the range of codes, so its places are below those of every part. -/
def place (c : Nat) : Nat :=
  if c = 0xFFFE then 1
  else match CodeRun.indexIn? alphabet c with
    | some i => i + 2
    | none => (partOf c + 1) * 0x110000 + c

end CodeTemplate.Text.Collation
